import Lexis.Proofs.Session.Registration

/-! Sessions that no fault stops: those that scan characters with columns well below the largest
word. -/

namespace Lexis

/-- The columns of some characters are words, and so are those that end their lexemes. -/
def Narrow (gs : List Glyph) : Prop := ∀ g ∈ gs, g.position.column + gs.length < wordLimit

section

variable {known : String → Option Kind} {g : Glyph} {gs hs rest : List Glyph} {p : Segment}

theorem Narrow.of_suffix (h : Narrow hs) (later : gs <:+ hs) : Narrow gs := by
  intro g mem
  have column := h g (later.mem mem)
  have length := later.length_le
  omega

theorem Cuts.fits_of_narrow (h : Cuts known g gs p rest) (narrow : Narrow (g :: gs)) : p.Fits := by
  rw [← h.glyphs_append] at narrow
  have column := narrow p.first (List.mem_append_left _ List.mem_cons_self)
  rw [List.length_append] at column
  rw [Segment.Fits, Segment.place]
  omega

end

namespace TokenStream

variable {σ : Type} [CharSource σ] {known : String → Option Kind} {s : TokenStream σ}

theorem next_returns (narrow : Narrow s.pending) : ∃ pulled, s.next = .ok pulled := by
  have follows := SymbolTable.Follows.refl s.symbols
  generalize s.symbols.kind? = known at follows
  generalize hgs : s.pending = gs at narrow
  induction gs using segments_induction known generalizing s with
  | nil => exact ⟨_, next_of_end hgs⟩
  | @step g gs p rest cuts ih =>
      cases hp : p.kind? with
      | none =>
          obtain ⟨after, left, hnext⟩ := next_of_other follows hgs cuts hp
          have later : Narrow rest :=
            narrow.of_suffix (cuts.glyphs_append ▸ List.suffix_append p.glyphs rest)
          rw [hnext]
          exact ih (left.symbols ▸ follows_register cuts follows) left.pending later
      | some kind =>
          obtain ⟨after, -, hnext⟩ := next_of_lexeme follows hgs cuts hp
          rw [hnext, Segment.token, addWords_of_lt (cuts.fits_of_narrow narrow)]
          exact ⟨_, rfl⟩

theorem pullAll_returns (narrow : Narrow s.pending) (tokens : Array Token) :
    ∃ pulled, s.pullAll tokens = .ok pulled := by
  fun_induction pullAll tokens s with
  | case1 tokens s fault failed =>
      obtain ⟨pulled, done⟩ := next_returns narrow
      cases failed.symm.trans done
  | case2 => exact ⟨_, rfl⟩
  | case3 tokens s token s' found ih => exact ih (narrow.of_suffix (draws_next found).pending)

theorem answer_returns (narrow : Narrow s.pending) (request : Request) :
    ∃ turn, s.answer request = .ok turn := by
  cases request with
  | next =>
      obtain ⟨pulled, done⟩ := next_returns narrow
      exact ⟨_, map_eq_ok.mpr ⟨pulled, done, rfl⟩⟩
  | rest =>
      obtain ⟨pulled, done⟩ := pullAll_returns narrow #[]
      exact ⟨_, map_eq_ok.mpr ⟨_, map_eq_ok.mpr ⟨pulled, done, rfl⟩, rfl⟩⟩
  | close => exact ⟨_, rfl⟩
  | diagnostics => exact ⟨_, rfl⟩
  | takeDiagnostics => exact ⟨_, rfl⟩

theorem converse_returns (narrow : Narrow s.pending) (requests : List Request) :
    ∃ turns, s.converse requests = .ok turns := by
  induction requests generalizing s with
  | nil => exact ⟨_, rfl⟩
  | cons request requests ih =>
      obtain ⟨turn, answered⟩ := answer_returns narrow request
      obtain ⟨later, conversed⟩ := ih (narrow.of_suffix (draws_answer answered).pending)
      rw [converse, answered]
      exact ⟨_, map_eq_ok.mpr ⟨later, conversed, rfl⟩⟩

end TokenStream

namespace Session

def Step.Narrow : Step → Prop
  | .tokenize text => text.length < wordLimit
  | .scan input _ => Lexis.Narrow input.glyphs
  | .intern _ _ | .resolve _ | .contains _ | .isEmpty => True

theorem perform_returns {step : Step} (narrow : step.Narrow) (table : SymbolTable) :
    ∃ done, perform table step = .ok done := by
  cases step with
  | intern => exact ⟨_, rfl⟩
  | resolve => exact ⟨_, rfl⟩
  | contains => exact ⟨_, rfl⟩
  | isEmpty => exact ⟨_, rfl⟩
  | tokenize text =>
      obtain ⟨t, done⟩ := tokenize_returns (.refl table) narrow
      exact ⟨_, map_eq_ok.mpr ⟨t, done, rfl⟩⟩
  | scan input requests =>
      rw [perform]
      split
      next => exact ⟨_, rfl⟩
      next opened hopened =>
        have small : Lexis.Narrow opened.pending := by
          rw [Input.pending_stream hopened]
          exact narrow
        obtain ⟨turns, conversed⟩ := TokenStream.converse_returns small requests
        exact ⟨_, map_eq_ok.mpr ⟨_, map_eq_ok.mpr ⟨turns, conversed, rfl⟩, rfl⟩⟩

/-- Whatever the table, every step comes to an end. -/
theorem run_returns {steps : List Step} (narrow : ∀ step ∈ steps, step.Narrow)
    (table : SymbolTable) : ∃ results, run table steps = .ok results := by
  induction steps generalizing table with
  | nil => exact ⟨_, rfl⟩
  | cons step steps ih =>
      obtain ⟨first, later⟩ := List.forall_mem_cons.mp narrow
      obtain ⟨done, performed⟩ := perform_returns first table
      obtain ⟨results, ran⟩ := ih later done.2
      rw [run, performed]
      exact ⟨_, map_eq_ok.mpr ⟨results, ran, rfl⟩⟩

end Session
end Lexis
