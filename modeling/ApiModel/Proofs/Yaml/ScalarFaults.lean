import ApiModel.Proofs.Yaml.CursorFaults

namespace ApiModel.Yaml

open Text Cursor

section Quoted

theorem yields_quotedBreaks (fuel : Nat) (c : Cursor) : c.Yields Prod.snd (quotedBreaks fuel c) := by
  induction fuel generalizing c with
  | zero => exact yields_malformed
  | succ fuel ih =>
    unfold quotedBreaks
    split
    · exact yields_malformed
    · dsimp only
      refine (c.reaches_skipWhile isBlank).yields ?_
      split
      · exact Reaches.refl _
      · rename_i breaks
        exact (reaches_of_lineBreak? breaks).yields ((ih _).map fun _ => .refl _)

theorem yields_quotedGap (fuel : Nat) (c : Cursor) : c.Yields Prod.snd (quotedGap fuel c) := by
  have blanks := c.reaches_forward (c.rest.takeWhile isBlank).length
  refine blanks.yields ?_
  unfold quotedGap
  dsimp only
  split
  · rename_i breaks
    exact (reaches_of_lineBreak? breaks).yields ((yields_quotedBreaks fuel _).map fun _ => .refl _)
  · exact Reaches.refl _

theorem hexValue?_lt {c : Char} {d : Nat} (digit : hexValue? c = some d) : d < 16 := by
  unfold hexValue? at digit
  split at digit
  · exact of_decide_eq_true (Option.filter_eq_some_iff.1 digit).2
  · contradiction

theorem hexCode?_lt {n : Nat} {cs : List Char} {high code : Nat}
    (number : hexCode? n cs high = some code) : code < (high + 1) * 16 ^ n := by
  induction n generalizing cs high with
  | zero =>
    cases number
    omega
  | succ n ih =>
    cases cs with
    | nil => contradiction
    | cons c r =>
      obtain ⟨d, digit, rest⟩ := Option.bind_eq_some_iff.1 number
      have small := hexValue?_lt digit
      calc code < (high * 16 + d + 1) * 16 ^ n := ih rest
        _ ≤ (high + 1) * 16 * 16 ^ n := Nat.mul_le_mul_right _ (by omega)
        _ = (high + 1) * 16 ^ (n + 1) := by rw [Nat.pow_succ', Nat.mul_assoc]

theorem escapesPast_of_code {x : Char} {n code : Nat} {cs r : List Char} (length : codeLength? x = some n)
    (number : hexCode? n r 0 = some code) (past : 0x10FFFF < code) (at_ : cs = '\\' :: x :: r) :
    EscapesPast cs (.noSuchCharacter code) := by
  have bound := hexCode?_lt number
  unfold codeLength? at length
  split at length
  · cases length
    omega
  · cases length
    omega
  · cases length
    exact ⟨[], r, code, at_, number, past, rfl⟩
  · contradiction

theorem yields_quotedEscape (fuel : Nat) {c : Cursor} (at_ : c.peek = some '\\') :
    c.Yields Prod.snd (quotedEscape fuel c.next) := by
  obtain ⟨r, rest⟩ := List.head?_eq_some_iff.1 at_
  have next := next_rest rest
  unfold quotedEscape
  split
  · exact yields_malformed
  · rename_i x peek
    obtain ⟨r', rest'⟩ := List.head?_eq_some_iff.1 peek
    split
    · exact c.reaches_next.trans (reaches_next _)
    · split
      · rename_i n length
        split
        · rename_i code number
          rw [next_rest rest'] at number
          unfold letterOfCode
          split
          · rename_i past
            refine .inr (escapesPast_of_code length number past ?_)
            rw [rest, ← next, rest']
          · exact c.reaches_next.trans (reaches_forward _ _)
        · exact yields_malformed
      · split
        · rename_i breaks
          exact c.reaches_next.yields ((reaches_of_lineBreak? breaks).yields
            ((yields_quotedBreaks fuel _).map fun _ => .refl _))
        · exact yields_malformed

theorem yields_quotedScalar (double : Bool) (fuel : Nat) (c : Cursor) :
    c.Yields Prod.snd (quotedScalar double fuel c) := by
  induction fuel generalizing c with
  | zero => exact yields_malformed
  | succ fuel ih =>
    unfold quotedScalar
    split
    · exact yields_malformed
    · rename_i x peek
      dsimp only
      -- where the text goes on; the closing quote is at `c` itself
      let place (piece : Option (List Letter × Cursor)) : Cursor := (piece.map Prod.snd).getD c
      generalize found : (if (isBlank x || isBreak x) = true then _ else _ :
        Except Fault (Option (List Letter × Cursor))) = piece
      have yields : c.Yields place piece := by
        rw [← found]
        split
        · exact (yields_quotedGap fuel c).map fun _ => .refl _
        · split
          · split
            · exact Reaches.refl c
            · split
              · rename_i escape
                exact (yields_quotedEscape fuel (escape ▸ peek)).map fun _ => .refl _
              · exact c.reaches_next
          · split
            · split
              · exact c.reaches_forward 2
              · exact Reaches.refl c
            · exact c.reaches_next
      split
      · exact yields
      · exact c.reaches_next
      · rename_i text d
        have reaches : c.Reaches d := yields
        exact reaches.yields ((ih d).map fun _ => .refl _)

end Quoted

section Plain

theorem reaches_plainBreaks (fuel : Nat) (c : Cursor) : c.Reaches (plainBreaks fuel c).2 := by
  induction fuel generalizing c with
  | zero => exact .refl c
  | succ fuel ih =>
    unfold plainBreaks
    split
    · exact c.reaches_next.trans (ih c.next)
    · split
      · exact .refl c
      · rename_i d breaks
        have behind := reaches_of_lineBreak? breaks
        split
        · exact behind
        · exact behind.trans (ih d)

theorem reaches_plainGap (fuel : Nat) (c : Cursor) : c.Reaches (plainGap fuel c).after := by
  have spaces := c.reaches_forward (c.rest.takeWhile (· = ' ')).length
  refine spaces.trans ?_
  unfold plainGap
  dsimp only
  split
  · exact .refl _
  · rename_i d breaks
    refine (reaches_of_lineBreak? breaks).trans ?_
    have more := reaches_plainBreaks fuel d
    split
    · exact .refl d
    · split
      · rename_i read
        rw [read] at more
        exact more
      · rename_i read
        rw [read] at more
        exact more

theorem reaches_plainScalar (inFlow : Bool) (indent fuel : Nat) (c : Cursor) :
    c.Reaches (plainScalar inFlow indent fuel c).after := by
  induction fuel generalizing c with
  | zero => exact .refl c
  | succ fuel ih =>
    unfold plainScalar
    dsimp only
    have gap := (c.reaches_forward _).trans (reaches_plainGap fuel
      (c.forward (c.rest.take (plainLength inFlow c.rest)).length))
    split
    · exact gap
    · exact gap.trans (ih _)

end Plain

section Block

theorem reaches_blockIndicators (c : Cursor) : c.Reaches (blockIndicators c).after := by
  unfold blockIndicators
  split
  · split
    · exact c.reaches_forward 2
    · exact c.reaches_next
  · split
    · split
      · exact c.reaches_forward 2
      · exact c.reaches_next
    · exact .refl c

theorem yields_blockHeader (c : Cursor) : c.Yields BlockHeader.after (blockHeader c) := by
  unfold blockHeader
  dsimp only
  split
  · split
    · rename_i skips
      exact (reaches_blockIndicators c).trans (reaches_of_skipRestOfLine? skips)
    · exact yields_malformed
  · exact yields_malformed

theorem reaches_leadingLines (fuel deepest : Nat) (c : Cursor) :
    c.Reaches (leadingLines fuel deepest c).2.2 := by
  induction fuel generalizing deepest c with
  | zero => exact .refl c
  | succ fuel ih =>
    unfold leadingLines
    split
    · exact c.reaches_next.trans (ih _ c.next)
    · split
      · rename_i d breaks
        exact (reaches_of_lineBreak? breaks).trans (ih _ d)
      · exact .refl c

theorem reaches_emptyLines (indent fuel : Nat) (c : Cursor) :
    c.Reaches (emptyLines indent fuel c).2 := by
  induction fuel generalizing c with
  | zero => exact .refl c
  | succ fuel ih =>
    unfold emptyLines
    dsimp only
    have skipped : c.Reaches (skipIndent indent c) := c.reaches_forward _
    split
    · rename_i d breaks
      exact skipped.trans ((reaches_of_lineBreak? breaks).trans (ih d))
    · exact skipped

theorem reaches_blockBody (folded : Bool) (indent fuel : Nat) (empty : List Char) (c : Cursor) :
    c.Reaches (blockBody folded indent fuel empty c).after := by
  induction fuel generalizing empty c with
  | zero => exact .refl c
  | succ fuel ih =>
    unfold blockBody
    split
    · dsimp only
      have line := c.reaches_forward (c.rest.takeWhile (!isBreak ·)).length
      split
      · rename_i breaks
        have lines := (line.trans (reaches_of_lineBreak? breaks)).trans (reaches_emptyLines indent fuel _)
        split
        · exact lines.trans (ih _ _)
        · exact lines
      · have lines := line.trans (reaches_emptyLines indent fuel _)
        split
        · exact lines.trans (ih _ _)
        · exact lines
    · exact .refl c

theorem yields_blockScalar (folded : Bool) (parent : Int) (fuel : Nat) (c : Cursor) :
    c.Yields Prod.snd (blockScalar folded parent fuel c) := by
  refine (yields_blockHeader c).bind fun h => ?_
  dsimp only
  split
  · exact (reaches_emptyLines ..).trans (reaches_blockBody ..)
  · exact (reaches_leadingLines ..).trans (reaches_blockBody ..)

end Block

end ApiModel.Yaml
