import Lexis.Source.Basic

/-! A source as the list of characters it still has to give, and what comes after them. -/

namespace Lexis.CharSource

variable {σ : Type} [CharSource σ]

/-- The characters that reads give before the first other outcome. -/
def glyphs (s : σ) : List Glyph :=
  match _ : read s with
  | (.char g, s') => g :: glyphs s'
  | _ => []
termination_by remaining s
decreasing_by exact remaining_read ‹_›

def stop (s : σ) : Outcome :=
  match _ : read s with
  | (.char _, s') => stop s'
  | (outcome, _) => outcome
termination_by remaining s
decreasing_by exact remaining_read ‹_›

theorem glyphs_of_char {s s' : σ} {g : Glyph} (h : read s = (.char g, s')) :
    glyphs s = g :: glyphs s' := by
  rw [glyphs]
  split
  next heq => rw [h] at heq; cases heq; rfl
  next hne => exact absurd h (hne g s')

theorem stop_of_char {s s' : σ} {g : Glyph} (h : read s = (.char g, s')) : stop s = stop s' := by
  rw [stop]
  split
  next heq => rw [h] at heq; cases heq; rfl
  next hne heq => rw [h] at heq; cases heq; exact absurd rfl (hne g)

theorem glyphs_of_stop {s s' : σ} {o : Outcome} (ho : ∀ g, o ≠ .char g) (h : read s = (o, s')) :
    glyphs s = [] := by
  rw [glyphs]
  split
  next heq => rw [h] at heq; cases heq; exact absurd rfl (ho _)
  next => rfl

theorem stop_of_stop {s s' : σ} {o : Outcome} (ho : ∀ g, o ≠ .char g) (h : read s = (o, s')) :
    stop s = o := by
  rw [stop]
  split
  next heq => rw [h] at heq; cases heq; exact absurd rfl (ho _)
  next heq => rw [h] at heq; cases heq; rfl

/-- Sources that give the same at each read have the same characters and the same end. -/
theorem glyphs_of_reads {τ : Type} [CharSource τ] (alike : σ → τ → Prop)
    (reads : ∀ {s t}, alike s t → (read s).1 = (read t).1 ∧ alike (read s).2 (read t).2)
    {s : σ} {t : τ} (h : alike s t) : glyphs s = glyphs t ∧ stop s = stop t := by
  fun_induction glyphs s generalizing t with
  | case1 s g s' given ih =>
      obtain ⟨same, later⟩ := reads h
      rw [given] at same later
      have other : read t = (.char g, (read t).2) := Prod.ext same.symm rfl
      obtain ⟨glyphs, stop⟩ := ih later
      rw [glyphs_of_char other, stop_of_char other, stop_of_char given]
      exact ⟨congrArg (g :: ·) glyphs, stop⟩
  | case2 s ended =>
      obtain ⟨same, -⟩ := reads h
      have none (g : Glyph) : (read s).1 ≠ .char g :=
        fun given => ended g (read s).2 (Prod.ext given rfl)
      rw [glyphs_of_stop (s := t) (same ▸ none) rfl, stop_of_stop (s := t) (same ▸ none) rfl,
        stop_of_stop none rfl]
      exact ⟨rfl, same⟩

theorem readRun_keeps {P : σ → Prop} (kept : ∀ s, P s → P (read s).2) (text : String) {s : σ}
    (h : P s) : P (readRun text s).2.2 := by
  fun_induction readRun text s with
  | case1 text s g s' given ih =>
      apply ih
      have step := kept s h
      rwa [given] at step
  | case2 text s outcome s' _ given =>
      have step := kept s h
      rwa [given] at step

theorem readRun_eq (text : String) (s : σ) :
    (readRun text s).1 = text ++ String.ofList ((glyphs s).map Glyph.char) ∧
      (readRun text s).2.1 = stop s := by
  fun_induction readRun text s with
  | case1 text s g s' h ih =>
      rw [glyphs_of_char h, stop_of_char h]
      refine ⟨?_, ih.2⟩
      rw [ih.1, ← String.toList_inj]
      simp
  | case2 text s o s' hne h =>
      rw [glyphs_of_stop hne h, stop_of_stop hne h]
      simp

end Lexis.CharSource
