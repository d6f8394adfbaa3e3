import Doctest.Proofs.Outline.Loops

/-! What is left of the tokens after a part of an item: always an end of the tokens given, in which the end of
the file is if it was there. -/
namespace Doctest.Outline

theorem skipItem_suffix (depth : Nat) (ts : List Token) : skipItem depth ts <:+ ts :=
  (Loop.consumes_skipItem depth ts).suffix

theorem consumes_skipAttribute (ts : List Token) : Consumes ts (skipAttribute ts) := by
  unfold skipAttribute
  dsimp only
  split
  · next hbang =>
    have hdrop : Consumes ts (ts.drop 1) := .drop_one (by simp [hbang])
    split
    · exact hdrop.trans (Loop.consumes_skipGroup 0 _)
    · exact hdrop
  · split
    · exact Loop.consumes_skipGroup 0 ts
    · exact .refl ts

theorem skipAttribute_suffix (ts : List Token) : skipAttribute ts <:+ ts :=
  (consumes_skipAttribute ts).suffix

theorem consumes_skipGenerics (ts : List Token) : Consumes ts (skipGenerics ts) := by
  unfold skipGenerics
  split
  · exact Loop.sound_angles.consumes 0 ts
  · exact .refl ts

namespace Header

theorem consumes_dropMut (ts : List Token) : Consumes ts (dropMut ts) := by
  unfold dropMut
  split
  · next hmut => exact .drop_one (by simp [hmut])
  · exact .refl ts

theorem consumes_dropSemi (ts : List Token) : Consumes ts (dropSemi ts) := by
  unfold dropSemi
  split
  · next hsemi => exact .drop_one (by simp [hsemi])
  · exact .refl ts

theorem consumes_qualifiers (ts : List Token) : Consumes ts (qualifiers ts).2 :=
  Loop.sound_qualifiers.consumes 0 ts

theorem qualifiers_suffix (ts : List Token) : (qualifiers ts).2 <:+ ts :=
  (consumes_qualifiers ts).suffix

theorem consumes_named {ts : List Token} {go : String → List Token → Header × List Token}
    (hgo : ∀ name rest, Consumes rest (go name rest).2) : Consumes ts (named ts go).2 := by
  unfold named
  split
  · exact ((hgo _ _).advances (by simp)).consumes
  · exact .refl ts

theorem consumes_withMembers (kind : Element.Kind) (name : String) (ts : List Token) :
    Consumes ts (withMembers kind name ts).2 :=
  Loop.sound_body.consumes 0 ts

theorem consumes_ofKeyword (source : String) (t : Token) (ts : List Token) :
    Consumes (t :: ts) (ofKeyword source t ts).2 := by
  have keyword {word : Keyword} {rest : List Token} (ht : t.kind = .keyword word)
      (h : Consumes ts rest) : Consumes (t :: ts) rest :=
    (h.advances (by simp [ht])).consumes
  have leaf {word : Keyword} {kind : Element.Kind} {skip : List Token → List Token} {us : List Token}
      (ht : t.kind = .keyword word) (hs : ∀ us, Consumes us (skip us)) (hu : Consumes ts us) :
      Consumes (t :: ts) (named us fun name rest => (Header.leaf kind name, skip rest)).2 :=
    keyword ht (hu.trans (consumes_named fun _ _ => hs _))
  have hitem := Loop.consumes_skipItem 0
  have hself := Consumes.refl ts
  unfold ofKeyword
  split
  · next ht =>
    refine keyword ht (consumes_named fun name rest => ?_)
    split
    · next hsemi => exact .drop_one (by simp [hsemi])
    · next hbrace => exact .drop_one (by simp [hbrace])
    · exact .refl rest
  · next ht => exact leaf ht hitem hself
  · next ht => exact leaf ht hitem hself
  · next ht => exact leaf ht hitem hself
  · next ht => exact leaf ht hitem hself
  · next ht => exact keyword ht (consumes_named (consumes_withMembers .trait))
  · next ht =>
    have hheader := Loop.sound_header.consumes 0 (skipGenerics ts)
    exact keyword ht (((consumes_skipGenerics ts).trans hheader).trans (consumes_withMembers _ _ _))
  · next ht => exact leaf ht Loop.consumes_skipToSemi (consumes_dropMut ts)
  · next ht => exact leaf ht Loop.consumes_skipToSemi (consumes_dropMut ts)
  · next ht => exact leaf ht Loop.consumes_skipToSemi hself
  · next ht =>
    split
    · next hbang =>
      exact leaf ht (fun us => (hitem us).trans (consumes_dropSemi _)) (.drop_one (by simp [hbang]))
    · exact hitem _
  · exact Loop.consumes_skipToSemi _
  · exact hitem _

theorem consumes_read (source : String) (ts : List Token) : Consumes ts (read source ts).2 := by
  have h := consumes_qualifiers ts
  unfold read
  split
  · next heq => rwa [heq] at h
  · next heq => rwa [heq] at h
  · next t rest heq =>
    rw [heq] at h
    exact h.trans (consumes_ofKeyword source t rest)

theorem read_suffix (source : String) (ts : List Token) : (read source ts).2 <:+ ts :=
  (consumes_read source ts).suffix

/-- Reading an item takes at least one token, and not the end of the file. -/
theorem advances_read (source : String) {t : Token} (ts : List Token) (hb : t.kind ≠ .closing .brace)
    (he : t.kind ≠ .eof) : Advances (t :: ts) (read source (t :: ts)).2 :=
  (consumes_read source (t :: ts)).advances_of_lt (length_read_lt source ts hb he)

end Header

end Doctest.Outline
