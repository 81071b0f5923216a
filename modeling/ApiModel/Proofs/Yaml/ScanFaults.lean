import ApiModel.Proofs.Yaml.ScalarFaults

namespace ApiModel.Yaml

open Text Cursor

namespace Scan

variable {s : Scan} {size : Nat}

theorem cursor_unwind (column : Int) (s : Scan) : (s.unwind column).cursor = s.cursor := by
  unfold unwind
  split
  · rfl
  · dsimp only
    split <;> rfl

theorem reaches_skipToWord (fuel : Nat) (s : Scan) : s.cursor.Reaches (s.skipToWord fuel).cursor := by
  induction fuel generalizing s with
  | zero => exact .refl _
  | succ fuel ih =>
    unfold skipToWord
    dsimp only
    have blanks := (s.cursor.reaches_skipWhile (· = ' ')).trans (reaches_skipComment _)
    split
    · rename_i breaks
      exact (blanks.trans (reaches_of_lineBreak? breaks)).trans (ih { s with cursor := _, keyAllowed := _ })
    · exact blanks

theorem reaches_skipMark (s : Scan) : s.cursor.Reaches s.skipMark.cursor := by
  unfold skipMark
  split
  · exact s.cursor.reaches_next
  · exact .refl _

theorem yields_dropStale (s : Scan) : s.cursor.Yields cursor s.dropStale := by
  unfold dropStale
  split
  · exact yields_malformed
  · exact Reaches.refl _

theorem yields_dropKey (s : Scan) : s.cursor.Yields cursor s.dropKey := by
  unfold dropKey
  split
  · exact yields_malformed
  · exact Reaches.refl _

theorem yields_saveKey (s : Scan) : s.cursor.Yields cursor s.saveKey := by
  unfold saveKey
  split
  · exact s.yields_dropKey.bind fun s => Reaches.refl _
  · exact Reaches.refl _

theorem reaches_take (n : Nat) (t : Token) (s : Scan) : s.cursor.Reaches (s.take n t).cursor :=
  s.cursor.reaches_forward n

theorem yields_keyWord {scan : Cursor → Except Fault (Token × Cursor)}
    (yields : ∀ c : Cursor, c.Yields Prod.snd (scan c)) (s : Scan) :
    s.cursor.Yields cursor (s.keyWord scan) :=
  s.yields_saveKey.bind fun s => (yields s.cursor).bind fun (_, c) => Reaches.refl c

theorem yields_unwind (column : Int) (s : Scan) :
    s.cursor.Yields cursor (s.unwind column).dropKey :=
  cursor_unwind column s ▸ (s.unwind column).yields_dropKey

theorem yields_scanEnd (s : Scan) : s.cursor.Yields cursor s.scanEnd :=
  (s.yields_unwind (-1)).bind fun s => Reaches.refl s.cursor

theorem yields_betweenDocuments {scan : Cursor → Except Fault (Token × Cursor)}
    (yields : ∀ c : Cursor, c.Yields Prod.snd (scan c)) (s : Scan) :
    s.cursor.Yields cursor (s.betweenDocuments scan) :=
  (s.yields_unwind (-1)).bind fun s => (yields s.cursor).bind fun (_, c) => Reaches.refl c

theorem yields_openFlow (t : Token) (s : Scan) : s.cursor.Yields cursor (s.openFlow t) :=
  s.yields_saveKey.bind fun s => s.reaches_take 1 t

theorem yields_closeFlow (t : Token) (s : Scan) : s.cursor.Yields cursor (s.closeFlow t) := by
  refine s.yields_dropKey.bind fun s => ?_
  dsimp only
  split
  · exact yields_malformed
  · exact s.reaches_take 1 t

theorem yields_scanFlowEntry (s : Scan) : s.cursor.Yields cursor s.scanFlowEntry :=
  s.yields_dropKey.bind fun s => s.reaches_take 1 .flowEntry

theorem yields_blockFor (start : Token) (s : Scan) : s.cursor.Yields cursor (s.blockFor start) := by
  unfold blockFor
  split
  · exact Reaches.refl _
  · split
    · exact yields_malformed
    · split <;> exact Reaches.refl _

theorem yields_scanBlockEntry (s : Scan) : s.cursor.Yields cursor s.scanBlockEntry :=
  (s.yields_blockFor .blockSequenceStart).bind fun s =>
    s.yields_dropKey.bind fun s => s.reaches_take 1 .blockEntry

theorem yields_scanKey (s : Scan) : s.cursor.Yields cursor s.scanKey :=
  (s.yields_blockFor .blockMappingStart).bind fun s =>
    s.yields_dropKey.bind fun s => s.reaches_take 1 .key

theorem yields_scanValue (s : Scan) : s.cursor.Yields cursor s.scanValue := by
  unfold scanValue
  split
  · dsimp only
    split <;> exact s.cursor.reaches_next
  · exact (s.yields_blockFor .blockMappingStart).bind fun s =>
      s.yields_dropKey.bind fun s => s.reaches_take 1 .value

theorem yields_scanBlockScalar (folded : Bool) (s : Scan) :
    s.cursor.Yields cursor (s.scanBlockScalar size folded) :=
  s.yields_dropKey.bind fun s => s.cursor.reaches_next.yields
    ((yields_blockScalar folded s.indent size _).bind fun (_, c) => Reaches.refl c)

theorem yields_scanPlain (s : Scan) : s.cursor.Yields cursor (s.scanPlain size) :=
  s.yields_saveKey.bind fun _ => reaches_plainScalar ..

theorem yields_scanWord (first : Char) (s : Scan) : s.cursor.Yields cursor (s.scanWord size first) := by
  have directive (c : Cursor) :
      c.Yields Prod.snd ((scanDirective size c.next).map fun r => (Token.directive r.1, r.2)) :=
    c.reaches_next.yields ((yields_scanDirective size _).map fun _ => .refl _)
  have marker (t : Token) (c : Cursor) : c.Yields Prod.snd (.ok (t, c.forward 3)) := c.reaches_forward 3
  have name (t : String → Token) (c : Cursor) :
      c.Yields Prod.snd ((scanAnchor c.next).map fun r => (t r.1, r.2)) :=
    c.reaches_next.yields ((yields_scanAnchor _).map fun _ => .refl _)
  have quoted (double : Bool) (c : Cursor) : c.Yields Prod.snd
      ((quotedScalar double size c.next).map fun r => (Token.scalar (.ofList r.1) false, r.2)) :=
    c.reaches_next.yields ((yields_quotedScalar double size _).map fun _ => .refl _)
  unfold scanWord
  dsimp only
  refine .ite (s.yields_betweenDocuments directive) ?_
  refine .ite (s.yields_betweenDocuments (marker .documentStart)) ?_
  refine .ite (s.yields_betweenDocuments (marker .documentEnd)) ?_
  refine .ite (s.yields_openFlow _) (.ite (s.yields_openFlow _) ?_)
  refine .ite (s.yields_closeFlow _) (.ite (s.yields_closeFlow _) ?_)
  refine .ite s.yields_scanFlowEntry (.ite s.yields_scanBlockEntry ?_)
  refine .ite s.yields_scanKey (.ite s.yields_scanValue ?_)
  refine .ite (s.yields_keyWord (name .alias)) (.ite (s.yields_keyWord (name .anchor)) ?_)
  refine .ite (s.yields_keyWord (yields_scanTag size)) (.ite (s.yields_scanBlockScalar _) ?_)
  exact .ite (s.yields_keyWord (quoted _)) (.ite s.yields_scanPlain yields_malformed)

theorem yields_step (s : Scan) : s.cursor.Yields cursor (s.step size) := by
  have start := s.reaches_skipMark.trans (reaches_skipToWord size s.skipMark)
  refine start.yields ((yields_dropStale _).bind fun s => ?_)
  dsimp only
  have last := yields_scanEnd (s.unwind s.cursor.column)
  have word (first : Char) : (s.unwind s.cursor.column).cursor.Yields cursor
      ((s.unwind s.cursor.column).scanWord size first) := yields_scanWord first _
  rw [cursor_unwind] at last
  simp only [cursor_unwind] at word
  split
  · exact last
  · exact word _

theorem fault_of_run {fuel : Nat} {e : Fault} (fault : (run size fuel s).fault = some e) :
    ScanFault s.cursor.rest e := by
  induction fuel generalizing s with
  | zero =>
    cases fault
    exact .inl rfl
  | succ fuel ih =>
    have stepped : s.cursor.Yields cursor (s.step size) := s.yields_step
    unfold run at fault
    split at fault
    · rename_i step
      cases fault
      rw [step] at stepped
      exact stepped
    · rename_i step
      rw [step] at stepped
      split at fault
      · contradiction
      · exact Reaches.fault stepped (ih fault)

end Scan

/-- Words end before the text does only if the text is not YAML or has an escape for a character that
    does not exist. -/
theorem Tokens.fault_of_ofText {cs : List Char} {e : Fault} (fault : (ofText cs).fault = some e) :
    ScanFault cs e := Scan.fault_of_run fault

end ApiModel.Yaml
