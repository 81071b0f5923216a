import ApiModel.Proofs.Yaml.WordSteps

namespace ApiModel.Json

open Text

def Blanks.folded (b : Blanks) : List Char := normalizeLineEnds b.chars

end ApiModel.Json

namespace ApiModel.Yaml

open Json Text

variable {cs r : List Char} {x : Char}

theorem normalizeLineEnds_append (cs : List Char) (noFeed : r.head? ≠ some '\n') :
    normalizeLineEnds (cs ++ r) = normalizeLineEnds cs ++ normalizeLineEnds r := by
  fun_induction normalizeLineEnds cs with
  | case1 => rfl
  | case2 cs ih => rw [List.cons_append, List.cons_append, normalizeLineEnds, ih, List.cons_append]
  | case3 x cs alone ih =>
    rw [List.cons_append, normalizeLineEnds, ih, List.cons_append]
    intro ds feed same
    cases cs with
    | nil => exact noFeed (by rw [← List.nil_append r, same]; rfl)
    | cons y cs => exact alone cs feed (by rw [(List.cons.inj same).1])

theorem normalizeLineEnds_plain (plain : ∀ y ∈ cs, y ≠ '\r') (r : List Char) :
    normalizeLineEnds (cs ++ r) = cs ++ normalizeLineEnds r := by
  induction cs with
  | nil => rfl
  | cons x cs ih =>
    have here := plain x (List.mem_cons_self ..)
    rw [List.cons_append, normalizeLineEnds, if_neg here,
      ih fun y mem => plain y (List.mem_cons_of_mem x mem), List.cons_append]
    exact fun _ feed => absurd feed here

theorem noReturn_spell (ps : List Piece) : ∀ y ∈ spell ps, y ≠ '\r' := by
  intro y mem
  obtain ⟨p, -, mem⟩ := List.mem_flatMap.1 mem
  rintro rfl
  cases p with
  | raw c plain =>
    rw [Piece.chars, List.mem_singleton] at mem
    exact absurd plain.1 (by rw [← mem]; decide)
  | named letter c names =>
    simp only [Piece.chars, List.mem_cons, List.not_mem_nil, or_false] at mem
    rcases mem with mem | rfl
    · exact absurd mem (by decide)
    · contradiction
  | code a b c d n writes =>
    have noHex : hexValue? '\r' = none := rfl
    simp only [hex4?, Option.bind_eq_bind, Option.bind_eq_some_iff] at writes
    obtain ⟨va, ha, vb, hb, vc, hc, vd, hd, -⟩ := writes
    simp only [Piece.chars, List.mem_cons, List.not_mem_nil, or_false] at mem
    rcases mem with mem | mem | rfl | rfl | rfl | rfl
    · exact absurd mem (by decide)
    · exact absurd mem (by decide)
    · rw [noHex] at ha
      contradiction
    · rw [noHex] at hb
      contradiction
    · rw [noHex] at hc
      contradiction
    · rw [noHex] at hd
      contradiction

theorem noReturn_word (word : Bare) : ∀ y ∈ word.chars, y ≠ '\r' :=
  all_word word (· ≠ '\r') (by decide)

theorem folded_append (b : Blanks) (noFeed : r.head? ≠ some '\n') :
    normalizeLineEnds (b.chars ++ r) = b.folded ++ normalizeLineEnds r :=
  normalizeLineEnds_append b.chars noFeed

theorem folded_cons (plain : x ≠ '\r') (r : List Char) :
    normalizeLineEnds (x :: r) = x :: normalizeLineEnds r :=
  normalizeLineEnds_plain (fun _ mem => List.mem_singleton.1 mem ▸ plain) r

theorem folded_quoted (ps : List Piece) (r : List Char) :
    normalizeLineEnds ('"' :: (spell ps ++ '"' :: r)) =
      '"' :: (spell ps ++ '"' :: normalizeLineEnds r) := by
  rw [folded_cons (by decide), normalizeLineEnds_plain (noReturn_spell ps), folded_cons (by decide)]

theorem folded_label (l : Label) (noFeed : r.head? ≠ some '\n') :
    normalizeLineEnds (l.render Blanks.chars ++ r) =
      l.render Blanks.folded ++ normalizeLineEnds r := by
  simp only [Label.render, List.cons_append, List.append_assoc]
  rw [folded_append _ (by simp), folded_quoted, folded_append _ (by simp), folded_cons (by decide),
    folded_append _ noFeed]

theorem noFeed_render (blank : Blanks → List Char) (t : Spelling) (r : List Char) :
    (t.render blank ++ r).head? ≠ some '\n' := by
  obtain ⟨x, cs, starts, noBlank⟩ := render_starts blank t
  rw [starts]
  intro feed
  cases Option.some.inj feed
  contradiction

mutual

theorem folded_render (t : Spelling) (r : List Char) :
    normalizeLineEnds (t.render Blanks.chars ++ r) = t.render Blanks.folded ++ normalizeLineEnds r := by
  cases t with
  | bare word => exact normalizeLineEnds_plain (noReturn_word word) r
  | quoted ps =>
    simp only [Spelling.render, List.cons_append, List.append_assoc, List.nil_append]
    exact folded_quoted ps r
  | emptyList inside | emptyObject inside =>
    simp only [Spelling.render, List.cons_append, List.append_assoc, List.nil_append]
    rw [folded_cons (by decide), folded_append _ (by simp), folded_cons (by decide)]
  | list items =>
    simp only [Spelling.render, List.cons_append, List.append_assoc, List.nil_append]
    rw [folded_cons (by decide), folded_items items _ (by simp), folded_cons (by decide)]
  | object members =>
    simp only [Spelling.render, List.cons_append, List.append_assoc, List.nil_append]
    rw [folded_cons (by decide), folded_members members _ (by simp), folded_cons (by decide)]

theorem folded_items (items : Items) (r : List Char) (noFeed : r.head? ≠ some '\n') :
    normalizeLineEnds (items.render Blanks.chars ++ r) =
      items.render Blanks.folded ++ normalizeLineEnds r := by
  cases items with
  | last before item after =>
    simp only [Items.render, List.append_assoc]
    rw [folded_append _ (noFeed_render _ item _), folded_render item, folded_append _ noFeed]
  | more before item after rest =>
    simp only [Items.render, List.append_assoc, List.cons_append]
    rw [folded_append _ (noFeed_render _ item _), folded_render item, folded_append _ (by simp),
      folded_cons (by decide), folded_items rest r noFeed]

theorem folded_members (members : Members) (r : List Char) (noFeed : r.head? ≠ some '\n') :
    normalizeLineEnds (members.render Blanks.chars ++ r) =
      members.render Blanks.folded ++ normalizeLineEnds r := by
  cases members with
  | last label value after =>
    simp only [Members.render, List.append_assoc]
    rw [folded_label _ (noFeed_render _ value _), folded_render value, folded_append _ noFeed]
  | more label value after rest =>
    simp only [Members.render, List.append_assoc, List.cons_append]
    rw [folded_label _ (noFeed_render _ value _), folded_render value, folded_append _ (by simp),
      folded_cons (by decide), folded_members rest r noFeed]

end

theorem folded_whole (t : Whole) : normalizeLineEnds t.chars = t.render Blanks.folded := by
  simp only [Whole.chars, Whole.render, List.append_assoc]
  rw [folded_append _ (noFeed_render _ t.body _), folded_render t.body]
  rfl

end ApiModel.Yaml
