import Lexis.Proofs.TokenStream.Drawing

/-! Conversations with a token stream, one moment after another. -/

namespace Lexis.TokenStream

variable {σ : Type}

def lastOf (s : TokenStream σ) (turns : List (Reply × TokenStream σ)) : TokenStream σ :=
  (turns.getLast?.map (·.2)).getD s

def handed (turns : List (Reply × TokenStream σ)) : List Token :=
  turns.flatMap fun turn => turn.1.drawn

section

variable (s : TokenStream σ) (turn : Reply × TokenStream σ) (turns : List (Reply × TokenStream σ))

@[simp] theorem lastOf_nil : s.lastOf [] = s := rfl

theorem lastOf_cons : s.lastOf (turn :: turns) = turn.2.lastOf turns := by
  rw [lastOf, lastOf, List.getLast?_cons]
  cases turns.getLast? <;> rfl

theorem lastOf_append (more : List (Reply × TokenStream σ)) :
    s.lastOf (turns ++ more) = (s.lastOf turns).lastOf more := by
  induction turns generalizing s with
  | nil => rfl
  | cons turn turns ih => rw [List.cons_append, lastOf_cons, ih, lastOf_cons]

theorem lastOf_take_succ {turns : List (Reply × TokenStream σ)} {i : Nat}
    (h : turns[i]? = some turn) : s.lastOf (turns.take (i + 1)) = turn.2 := by
  rw [List.take_add_one, h, lastOf_append, Option.toList_some, lastOf_cons, lastOf_nil]

@[simp] theorem handed_nil : handed ([] : List (Reply × TokenStream σ)) = [] := rfl

@[simp] theorem handed_cons : handed (turn :: turns) = turn.1.drawn ++ handed turns := rfl

theorem handed_append (more : List (Reply × TokenStream σ)) :
    handed (turns ++ more) = handed turns ++ handed more := List.flatMap_append

theorem handed_take_succ {turns : List (Reply × TokenStream σ)} {i : Nat}
    (h : turns[i]? = some turn) :
    handed (turns.take (i + 1)) = handed (turns.take i) ++ turn.1.drawn := by
  rw [List.take_add_one, h, handed_append, Option.toList_some, handed_cons, handed_nil,
    List.append_nil]

end

variable [CharSource σ] {s : TokenStream σ} {requests : List Request}
  {turns : List (Reply × TokenStream σ)}

theorem converse_cons {request : Request} (h : s.converse (request :: requests) = .ok turns) :
    ∃ turn later, s.answer request = .ok turn ∧ turn.2.converse requests = .ok later ∧
      turns = turn :: later := by
  rw [converse] at h
  split at h
  next => cases h
  next turn answered =>
    obtain ⟨later, conversed, rfl⟩ := ok_of_map h
    exact ⟨turn, later, answered, conversed, rfl⟩

theorem length_converse (h : s.converse requests = .ok turns) : turns.length = requests.length := by
  induction requests generalizing s turns with
  | nil =>
      cases h
      rfl
  | cons request requests ih =>
      obtain ⟨turn, later, -, conversed, rfl⟩ := converse_cons h
      rw [List.length_cons, List.length_cons, ih conversed]

theorem asked_of_told (h : s.converse requests = .ok turns) {i : Nat}
    {turn : Reply × TokenStream σ} (told : turns[i]? = some turn) :
    ∃ request, requests[i]? = some request := by
  obtain ⟨hi, -⟩ := List.getElem?_eq_some_iff.mp told
  exact ⟨_, List.getElem?_eq_getElem (length_converse h ▸ hi)⟩

theorem told_of_asked (h : s.converse requests = .ok turns) {i : Nat} {request : Request}
    (asked : requests[i]? = some request) : ∃ turn, turns[i]? = some turn := by
  obtain ⟨hi, -⟩ := List.getElem?_eq_some_iff.mp asked
  exact ⟨_, List.getElem?_eq_getElem ((length_converse h).symm ▸ hi)⟩

theorem converse_take (h : s.converse requests = .ok turns) (n : Nat) :
    s.converse (requests.take n) = .ok (turns.take n) := by
  induction n generalizing s requests turns with
  | zero => rfl
  | succ n ih =>
      cases requests with
      | nil =>
          cases h
          rfl
      | cons request requests =>
          obtain ⟨turn, later, answered, conversed, rfl⟩ := converse_cons h
          rw [List.take_succ_cons, converse, answered, List.take_succ_cons]
          simp only [ih conversed]
          rfl

/-- Each request is answered by the stream that the turns before it left. -/
theorem answer_of_converse (h : s.converse requests = .ok turns) {i : Nat} {request : Request}
    {turn : Reply × TokenStream σ} (asked : requests[i]? = some request)
    (told : turns[i]? = some turn) : (s.lastOf (turns.take i)).answer request = .ok turn := by
  induction requests generalizing s turns i with
  | nil => cases asked
  | cons first requests ih =>
      obtain ⟨turn', later, answered, conversed, rfl⟩ := converse_cons h
      cases i with
      | zero =>
          cases asked
          cases told
          exact answered
      | succ i =>
          rw [List.take_succ_cons, lastOf_cons]
          exact ih conversed asked told

theorem holds_from {P : TokenStream σ → Prop}
    (kept : ∀ {s s' : TokenStream σ} {request : Request} {reply : Reply}, request ∈ requests →
      P s → s.answer request = .ok (reply, s') → P s')
    (h : s.converse requests = .ok turns) {i j : Nat} (hij : i ≤ j)
    (start : P (s.lastOf (turns.take i))) : P (s.lastOf (turns.take j)) := by
  induction j, hij using Nat.le_induction with
  | base => exact start
  | succ j _ ih =>
      cases told : turns[j]? with
      | none => rwa [List.take_add_one, told, Option.toList_none, List.append_nil]
      | some turn =>
          obtain ⟨request, asked⟩ := asked_of_told h told
          rw [lastOf_take_succ s turn told]
          exact kept (List.mem_of_getElem? asked) ih (answer_of_converse h asked told)

/-- What every answer keeps is kept by a conversation. -/
theorem holds_last {P : TokenStream σ → Prop}
    (kept : ∀ {s s' : TokenStream σ} {request : Request} {reply : Reply}, request ∈ requests →
      P s → s.answer request = .ok (reply, s') → P s')
    (h : s.converse requests = .ok turns) (start : P s) : P (s.lastOf turns) := by
  have whole := holds_from kept h (Nat.zero_le turns.length) start
  rwa [List.take_length] at whole

/-- After each request of a conversation, the tokens of the replies so far were drawn. -/
theorem draws_converse (h : s.converse requests = .ok turns) (n : Nat) :
    s.Draws (handed (turns.take n)) (s.lastOf (turns.take n)) := by
  induction requests generalizing s turns n with
  | nil =>
      cases h
      rw [List.take_nil]
      exact .refl s
  | cons request requests ih =>
      obtain ⟨turn, later, answered, conversed, rfl⟩ := converse_cons h
      cases n with
      | zero => exact .refl s
      | succ n =>
          rw [List.take_succ_cons, handed_cons, lastOf_cons]
          exact (draws_answer answered).trans (ih conversed n)

end Lexis.TokenStream
