import Lexis.Proofs.Lexing.Tokens
import Lexis.Proofs.Source.Glyphs
import Lexis.TokenStream.Lexeme

/-! A token stream as the list of the characters it has not consumed yet. -/

namespace Lexis.TokenStream

open CharClass

variable {σ : Type} [CharSource σ]

/-- The characters not consumed yet: the lookahead, and what the source still gives. -/
def pending (s : TokenStream σ) : List Glyph :=
  match s.lookahead with
  | none => []
  | some g => g :: if s.released then [] else CharSource.glyphs s.source

/-- What a read gives once nothing is pending. -/
def ending (s : TokenStream σ) : Outcome :=
  if s.released then .endOfInput else CharSource.stop s.source

def advanceBy : TokenStream σ → Nat → TokenStream σ
  | s, 0 => s
  | s, n + 1 => advanceBy s.advance n

theorem advanceBy_add (s : TokenStream σ) (m n : Nat) :
    s.advanceBy (m + n) = (s.advanceBy m).advanceBy n := by
  induction m generalizing s with
  | zero => rw [Nat.zero_add, advanceBy]
  | succ m ih => rw [Nat.add_right_comm, advanceBy, ih, advanceBy]

theorem lookahead_eq (s : TokenStream σ) : s.lookahead = s.pending.head? := by
  rw [pending]
  cases s.lookahead <;> rfl

theorem lookahead_of_pending {s : TokenStream σ} {g : Glyph} {gs : List Glyph}
    (h : s.pending = g :: gs) : s.lookahead = some g := by
  rw [lookahead_eq, h, List.head?_cons]

theorem pending_of_lookahead {s : TokenStream σ} (h : s.lookahead = none) : s.pending = [] := by
  rw [pending, h]

theorem exists_pending {s : TokenStream σ} {g : Glyph} (h : s.lookahead = some g) :
    ∃ gs, s.pending = g :: gs := by
  rw [pending, h]
  exact ⟨_, rfl⟩

theorem position_of_pending {s : TokenStream σ} {g : Glyph} {gs : List Glyph}
    (h : s.pending = g :: gs) : s.position = g.position := by
  rw [position, lookahead_of_pending h]

omit [CharSource σ] in
theorem symbols_receive (s : TokenStream σ) (source : σ) (outcome : Outcome) :
    (s.receive source outcome).symbols = s.symbols := by
  cases outcome <;> rfl

omit [CharSource σ] in
@[simp] theorem source_receive (s : TokenStream σ) (source : σ) (outcome : Outcome) :
    (s.receive source outcome).source = source := by
  cases outcome <;> rfl

omit [CharSource σ] in
@[simp] theorem released_receive (s : TokenStream σ) (source : σ) (outcome : Outcome) :
    (s.receive source outcome).released = s.released := by
  cases outcome <;> rfl

theorem advance_of_held {s : TokenStream σ} (held : s.released = false) :
    s.advance = s.receive (CharSource.read s.source).2 (CharSource.read s.source).1 := by
  rw [advance, held, if_neg Bool.false_ne_true]

@[simp] theorem symbols_advance (s : TokenStream σ) : s.advance.symbols = s.symbols := by
  rw [advance]
  split
  · rfl
  · exact symbols_receive s _ _

theorem advance_of_pending {s : TokenStream σ} {g h : Glyph} {gs : List Glyph}
    (hs : s.pending = g :: h :: gs) :
    ∃ source, s.advance = { s with source, lookahead := some h } ∧
      s.advance.pending = h :: gs ∧ s.advance.ending = s.ending := by
  rw [pending, lookahead_of_pending hs] at hs
  simp only [List.cons.injEq, true_and] at hs
  cases held : s.released with
  | true => simp [held] at hs
  | false =>
      simp only [held, Bool.false_eq_true, if_false] at hs
      cases given : CharSource.read s.source with
      | mk outcome source =>
          cases outcome with
          | char g' =>
              rw [CharSource.glyphs_of_char given] at hs
              obtain ⟨rfl, hgs⟩ := List.cons.inj hs
              refine ⟨source, ?_, ?_, ?_⟩
              · simp [advance, held, given, receive]
              · simp [advance, held, given, receive, pending, hgs]
              · simp [advance, held, given, receive, ending, CharSource.stop_of_char given]
          | endOfInput => simp [CharSource.glyphs_of_stop (by simp) given] at hs
          | failure cause => simp [CharSource.glyphs_of_stop (by simp) given] at hs

/-- Past the last character nothing is pending, and a failure of the source is on record. -/
theorem advance_of_last {s : TokenStream σ} {g : Glyph} (hs : s.pending = [g]) :
    s.advance.pending = [] ∧
      s.advance.diagnostics.toList =
        s.diagnostics.toList ++ endDiagnostics s.ending g.position := by
  have place := position_of_pending hs
  rw [pending, lookahead_of_pending hs] at hs
  simp only [List.cons.injEq, true_and] at hs
  cases held : s.released with
  | true => simp [advance, held, pending, ending, endDiagnostics]
  | false =>
      simp only [held, Bool.false_eq_true, if_false] at hs
      cases given : CharSource.read s.source with
      | mk outcome source =>
          cases outcome with
          | char g' => simp [CharSource.glyphs_of_char given] at hs
          | endOfInput =>
              simp [advance, held, given, receive, pending, ending, endDiagnostics,
                CharSource.stop_of_stop (by simp) given]
          | failure cause =>
              simp [advance, held, given, receive, pending, ending, endDiagnostics, reportFailure,
                CharSource.stop_of_stop (by simp) given, place]

theorem pending_advance {s : TokenStream σ} {g : Glyph} {gs : List Glyph}
    (hs : s.pending = g :: gs) : s.advance.pending = gs := by
  cases gs with
  | nil => exact (advance_of_last hs).1
  | cons h gs =>
      obtain ⟨source, -, hpending, -⟩ := advance_of_pending hs
      exact hpending

@[simp] theorem symbols_advanceBy (s : TokenStream σ) (n : Nat) :
    (s.advanceBy n).symbols = s.symbols := by
  induction n generalizing s with
  | zero => rfl
  | succ n ih => rw [advanceBy, ih, symbols_advance]

theorem pending_advanceBy {s : TokenStream σ} {gs rest : List Glyph}
    (hs : s.pending = gs ++ rest) : (s.advanceBy gs.length).pending = rest := by
  induction gs generalizing s with
  | nil => exact hs
  | cons g gs ih => exact ih (pending_advance hs)

theorem ending_advanceBy {s : TokenStream σ} {gs rest : List Glyph} (hrest : rest ≠ [])
    (hs : s.pending = gs ++ rest) : (s.advanceBy gs.length).ending = s.ending := by
  induction gs generalizing s with
  | nil => rfl
  | cons g gs ih =>
      obtain ⟨h, hs', cons⟩ := List.exists_cons_of_ne_nil (List.append_ne_nil_of_right_ne_nil gs hrest)
      obtain ⟨source, -, hpending, hending⟩ := advance_of_pending (hs.trans (congrArg (g :: ·) cons))
      rw [List.length_cons, advanceBy, ih (hpending.trans cons.symm), hending]

theorem diagnostics_advanceBy {s : TokenStream σ} {g : Glyph} {gs rest : List Glyph}
    (hs : s.pending = g :: (gs ++ rest)) :
    (s.advanceBy (g :: gs).length).diagnostics.toList =
      s.diagnostics.toList ++
        if rest = [] then endDiagnostics s.ending (gs.getLastD g).position else [] := by
  induction gs generalizing s g with
  | nil =>
      cases rest with
      | nil => exact (advance_of_last hs).2
      | cons h rest =>
          obtain ⟨source, hsame, -, -⟩ := advance_of_pending hs
          change s.advance.diagnostics.toList = _
          rw [hsame]
          simp
  | cons h gs ih =>
      obtain ⟨source, hsame, hpending, hending⟩ := advance_of_pending hs
      have later := ih hpending
      rw [hending] at later
      rw [List.length_cons, advanceBy, later, List.getLastD_cons, hsame]

theorem takeRun_eq (p : Char → Bool) (lexeme : String) (s : TokenStream σ) :
    s.takeRun p lexeme =
      (lexeme ++ String.ofList ((s.pending.takeWhile (ofClass p)).map Glyph.char),
        s.advanceBy (s.pending.takeWhile (ofClass p)).length) := by
  fun_induction takeRun p lexeme s with
  | case1 lexeme s h =>
      rw [pending_of_lookahead h]
      simp [advanceBy]
  | case2 lexeme s g hg hp ih =>
      obtain ⟨gs, hs⟩ := exists_pending hg
      rw [ih, pending_advance hs, hs, List.takeWhile_cons_of_pos (p := ofClass p) hp,
        List.length_cons, advanceBy]
      refine Prod.ext ?_ rfl
      rw [← String.toList_inj]
      simp
  | case3 lexeme s g hg hp =>
      obtain ⟨gs, hs⟩ := exists_pending hg
      rw [hs, List.takeWhile_cons_of_neg (p := ofClass p) hp]
      simp [advanceBy]

theorem dropLine_eq (line : Nat) (s : TokenStream σ) :
    s.dropLine line = s.advanceBy (s.pending.takeWhile (onLine line)).length := by
  fun_induction dropLine line s with
  | case1 s h =>
      rw [pending_of_lookahead h]
      rfl
  | case2 s g hg hline ih =>
      obtain ⟨gs, hs⟩ := exists_pending hg
      rw [ih, pending_advance hs, hs, List.takeWhile_cons_of_pos (by simpa [onLine] using hline),
        List.length_cons, advanceBy]
  | case3 s g hg hline =>
      obtain ⟨gs, hs⟩ := exists_pending hg
      rw [hs, List.takeWhile_cons_of_neg (by simpa [onLine] using hline)]
      rfl

end Lexis.TokenStream
