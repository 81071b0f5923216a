import ApiModel.Proofs.Yaml.Cursor
import ApiModel.Yaml.Scan
import Mathlib.Algebra.Group.Nat.Defs

namespace ApiModel.Yaml

open Text

/-- Somewhere in the text there is an escape with eight digits for a character that does not exist. -/
def EscapesPast (cs : List Char) (e : Fault) : Prop :=
  ∃ before after code, cs = before ++ '\\' :: 'U' :: after ∧ hexCode? 8 after 0 = some code ∧
    0x10FFFF < code ∧ e = .noSuchCharacter code

/-- What the words of the text end with, if it is no escape, is that the text is not YAML. -/
def ScanFault (cs : List Char) (e : Fault) : Prop := e = .malformed ∨ EscapesPast cs e

theorem ScanFault.append {cs : List Char} {e : Fault} (fault : ScanFault cs e) (front : List Char) :
    ScanFault (front ++ cs) e := by
  rcases fault with malformed | ⟨before, after, code, rfl, number, past, same⟩
  · exact .inl malformed
  · exact .inr ⟨front ++ before, after, code, (List.append_assoc ..).symm, number, past, same⟩

namespace Cursor

variable {c d : Cursor} {α β : Type}

theorem Reaches.refl (c : Cursor) : c.Reaches c := (Passes.refl c).reaches

theorem reaches_next (c : Cursor) : c.Reaches c.next := by
  cases rest : c.rest with
  | nil =>
    rw [next, rest]
    exact .refl c
  | cons x r => exact (passes_next rest).reaches

theorem reaches_forward (n : Nat) (c : Cursor) : c.Reaches (c.forward n) := by
  induction n generalizing c with
  | zero => exact .refl c
  | succ n ih => exact c.reaches_next.trans (ih c.next)

theorem reaches_skipWhile (p : Char → Bool) (c : Cursor) : c.Reaches (c.skipWhile p) :=
  (passes_skipWhile p c).reaches

theorem reaches_skipComment (c : Cursor) : c.Reaches c.skipComment := by
  unfold skipComment
  split
  · exact c.reaches_skipWhile _
  · exact .refl c

theorem reaches_of_lineBreak? {b : Char} (breaks : c.lineBreak? = some (b, d)) : c.Reaches d := by
  unfold lineBreak? at breaks
  split at breaks
  · split at breaks
    · cases breaks
      exact c.reaches_next
    · contradiction
  · contradiction

theorem reaches_of_skipRestOfLine? (skips : c.skipRestOfLine? = some d) : c.Reaches d := by
  have before := (c.reaches_skipWhile (· = ' ')).trans (reaches_skipComment _)
  unfold skipRestOfLine? at skips
  dsimp only at skips
  split at skips
  · cases skips
    exact before
  · obtain ⟨⟨b, after⟩, breaks, rfl⟩ := Option.map_eq_some_iff.1 skips
    exact before.trans (reaches_of_lineBreak? breaks)

theorem Reaches.fault (reaches : c.Reaches d) {e : Fault} (fault : ScanFault d.rest e) :
    ScanFault c.rest e := by
  obtain ⟨cs, passes⟩ := reaches
  exact passes.rest ▸ fault.append cs

/-- A result read at `c` leaves a place that is not before `c`, or there is a fault of the text. -/
def Yields (c : Cursor) (place : α → Cursor) : Except Fault α → Prop
  | .ok a => c.Reaches (place a)
  | .error e => ScanFault c.rest e

variable {place : α → Cursor} {place' : β → Cursor} {x : Except Fault α}

theorem yields_malformed : c.Yields place (.error .malformed) := .inl rfl

theorem Reaches.yields (reaches : c.Reaches d) (yields : d.Yields place x) : c.Yields place x := by
  cases x with
  | ok a => exact reaches.trans yields
  | error e => exact reaches.fault yields

theorem Yields.bind {f : α → Except Fault β} (first : c.Yields place x)
    (rest : ∀ a, (place a).Yields place' (f a)) : c.Yields place' (x >>= f) := by
  cases x with
  | ok a => exact Reaches.yields first (rest a)
  | error e => exact first

theorem Yields.map {f : α → β} (first : c.Yields place x)
    (rest : ∀ a, (place a).Reaches (place' (f a))) : c.Yields place' (x.map f) := by
  cases x with
  | ok a => exact Reaches.trans first (rest a)
  | error e => exact first

theorem Yields.ite {p : Prop} [Decidable p] {y : Except Fault α} (yes : c.Yields place x)
    (no : c.Yields place y) : c.Yields place (if p then x else y) := by
  split
  · exact yes
  · exact no

end Cursor

open Cursor

section Names

theorem yields_scanName (c : Cursor) : c.Yields Prod.snd (scanName c) := by
  unfold scanName
  dsimp only
  split
  · exact yields_malformed
  · exact c.reaches_forward _

theorem yields_scanAnchor (c : Cursor) : c.Yields Prod.snd (scanAnchor c) := by
  refine (yields_scanName c).bind fun (name, d) => ?_
  dsimp only
  split
  · exact Reaches.refl d
  · exact yields_malformed

theorem yields_escapedBytes (fuel : Nat) (c : Cursor) : c.Yields Prod.snd (escapedBytes fuel c) := by
  induction fuel generalizing c with
  | zero => exact Reaches.refl c
  | succ fuel ih =>
    unfold escapedBytes
    split
    · split
      · exact (c.reaches_forward 3).yields ((ih _).map fun _ => .refl _)
      · exact yields_malformed
    · exact yields_malformed
    · exact Reaches.refl c

theorem yields_tagText (fuel : Nat) (c : Cursor) : c.Yields Prod.snd (tagText fuel c) := by
  induction fuel generalizing c with
  | zero => exact Reaches.refl c
  | succ fuel ih =>
    unfold tagText
    dsimp only
    have piece := c.reaches_forward (c.rest.takeWhile isTagChar).length
    refine piece.yields ?_
    split
    · refine (yields_escapedBytes fuel _).bind fun (bytes, d) => ?_
      dsimp only
      split
      · exact yields_malformed
      · exact (ih d).bind fun (more, _) => Reaches.refl _
    · exact Reaches.refl _

theorem yields_scanTagText (fuel : Nat) (c : Cursor) : c.Yields Prod.snd (scanTagText fuel c) := by
  refine (yields_tagText fuel c).bind fun (text, d) => ?_
  dsimp only
  split
  · exact yields_malformed
  · exact Reaches.refl d

theorem yields_scanHandle (c : Cursor) : c.Yields Prod.snd (scanHandle c) := by
  unfold scanHandle
  split
  · split
    · exact c.reaches_next
    · dsimp only
      split
      · exact (c.reaches_forward _).trans (reaches_next _)
      · exact yields_malformed
  · exact yields_malformed

theorem yields_scanTag (fuel : Nat) (c : Cursor) : c.Yields Prod.snd (scanTag fuel c) := by
  have ends (handle : Option String) (rest : String) (d : Cursor) : d.Yields Prod.snd
      (if endsField d.peek then pure (Token.tag handle rest, d) else .error .malformed) := by
    split
    · exact Reaches.refl d
    · exact yields_malformed
  have afterHandle (handle : String) (d : Cursor) : d.Yields Prod.snd ((scanTagText fuel d).bind fun r =>
      if endsField r.2.peek then pure (Token.tag (some handle) r.1, r.2) else .error .malformed) :=
    (yields_scanTagText fuel d).bind fun r => ends handle r.1 r.2
  unfold scanTag
  dsimp only
  split
  · refine (c.reaches_forward 2).yields ((yields_scanTagText fuel _).bind fun r => ?_)
    split
    · exact r.2.reaches_next.yields (ends none r.1 r.2.next)
    · exact yields_malformed
  · split
    · exact c.reaches_next.yields (ends none "!" c.next)
    · split
      · exact (yields_scanHandle c).bind fun r => afterHandle r.1 r.2
      · exact c.reaches_next.yields (afterHandle "!" c.next)

theorem yields_scanVersionNumber (c : Cursor) : c.Yields Prod.snd (scanVersionNumber c) := by
  unfold scanVersionNumber
  dsimp only
  split
  · exact yields_malformed
  · exact c.reaches_forward _

theorem yields_scanVersion (c : Cursor) : c.Yields Prod.snd (scanVersion c) := by
  refine (c.reaches_skipWhile (· = ' ')).yields ((yields_scanVersionNumber _).bind fun (major, d) => ?_)
  dsimp only
  split
  · exact yields_malformed
  · refine d.reaches_next.yields ((yields_scanVersionNumber _).bind fun (_, d) => ?_)
    dsimp only
    split
    · exact Reaches.refl d
    · exact yields_malformed

theorem yields_scanShorthand (fuel : Nat) (c : Cursor) :
    c.Yields Prod.snd (scanShorthand fuel c) := by
  refine (c.reaches_skipWhile (· = ' ')).yields ((yields_scanHandle _).bind fun (handle, d) => ?_)
  dsimp only
  split
  · exact yields_malformed
  · refine (d.reaches_skipWhile (· = ' ')).yields ((yields_scanTagText fuel _).bind fun (full, d) => ?_)
    dsimp only
    split
    · exact Reaches.refl d
    · exact yields_malformed

theorem yields_endOfDirective (directive : Directive) (c : Cursor) : c.Yields Prod.snd
    (match c.skipRestOfLine? with
      | some c => pure (directive, c)
      | none => Except.error Fault.malformed) := by
  split
  · rename_i skips
    exact reaches_of_skipRestOfLine? skips
  · exact yields_malformed

theorem yields_scanDirective (fuel : Nat) (c : Cursor) :
    c.Yields Prod.snd (scanDirective fuel c) := by
  refine (yields_scanName c).bind fun r => ?_
  dsimp only
  split
  · exact yields_malformed
  · split
    · exact (yields_scanVersion r.2).bind fun r => yields_endOfDirective r.1 r.2
    · split
      · exact (yields_scanShorthand fuel r.2).bind fun r => yields_endOfDirective r.1 r.2
      · exact (r.2.reaches_skipWhile _).yields (yields_endOfDirective .unknown _)

end Names

end ApiModel.Yaml
