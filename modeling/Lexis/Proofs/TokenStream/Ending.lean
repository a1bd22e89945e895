import Lexis.Proofs.TokenStream.Conversation

/-! A stream that has come to its end stays there. -/

namespace Lexis.TokenStream

variable {σ : Type} [CharSource σ] {s s' : TokenStream σ}

theorem atEnd_iff : s.atEnd = true ↔ s.pending = [] := by
  rw [atEnd, lookahead_eq, Option.isNone_iff_eq_none, List.head?_eq_none_iff]

theorem atEnd_close (s : TokenStream σ) : s.close.atEnd = true := atEnd_iff.mpr (pending_close s)

theorem released_close (s : TokenStream σ) : s.close.released = true := by
  rw [close]
  split
  next held => exact held
  next => rfl

theorem next_of_atEnd (h : s.atEnd = true) : s.next = .ok (none, s.close) :=
  next_of_end (atEnd_iff.mp h)

theorem atEnd_of_next (h : s.next = .ok (none, s')) : s'.atEnd = true := by
  fun_induction next s with
  | case1 s =>
      cases h
      exact atEnd_close s
  | case2 s g _ _ ih => exact ih h
  | case3 => cases h
  | case4 => cases h
  | case5 s g _ _ after _ ih => exact ih h

theorem atEnd_of_pullAll {tokens : Array Token} {pulled : Array Token × TokenStream σ}
    (h : s.pullAll tokens = .ok pulled) : pulled.2.atEnd = true := by
  fun_induction pullAll tokens s with
  | case1 => cases h
  | case2 tokens s s' ended =>
      cases h
      exact atEnd_of_next ended
  | case3 tokens s token s' _ ih => exact ih h

/-- No request takes a stream back from its end. -/
theorem atEnd_answer {request : Request} {reply : Reply} (ended : s.atEnd = true)
    (h : s.answer request = .ok (reply, s')) : s'.atEnd = true := by
  cases answers_of_answer h with
  | token pulled =>
      rw [next_of_atEnd ended] at pulled
      cases pulled
  | noToken pulled => exact atEnd_of_next pulled
  | rest pulled => exact atEnd_of_pullAll pulled
  | close => exact atEnd_close s
  | diagnostics => exact ended
  | takeDiagnostics => exact ended

/-- The reply says that there are no tokens but those it hands out. -/
def Reply.isLast : Reply → Bool
  | .noToken | .tokens _ => true
  | .done | .token _ | .diagnostics _ => false

theorem atEnd_of_isLast {request : Request} {reply : Reply} (h : s.answer request = .ok (reply, s'))
    (last : reply.isLast = true) : s'.atEnd = true := by
  cases answers_of_answer h with
  | noToken pulled => exact atEnd_of_next pulled
  | rest pulled => exact atEnd_of_pullAll pulled
  | token => cases last
  | close => cases last
  | diagnostics => cases last
  | takeDiagnostics => cases last

theorem exists_lt_of_mem_take {α : Type} {x : α} {xs : List α} {i : Nat} (h : x ∈ xs.take i) :
    ∃ j, j < i ∧ xs[j]? = some x := by
  obtain ⟨j, hj, there⟩ := List.mem_take_iff_getElem.mp h
  obtain ⟨hi, hlength⟩ := Nat.lt_min.mp hj
  exact ⟨j, hi, List.getElem?_eq_some_iff.mpr ⟨hlength, there⟩⟩

theorem atEnd_later {requests : List Request} {turns : List (Reply × TokenStream σ)}
    (h : s.converse requests = .ok turns) {i j : Nat} (hij : j < i) {turn : Reply × TokenStream σ}
    (told : turns[j]? = some turn) (ended : turn.2.atEnd = true) :
    (s.lastOf (turns.take i)).atEnd = true := by
  apply holds_from (fun _ => atEnd_answer) h hij
  rwa [lastOf_take_succ s turn told]

theorem atEnd_of_noToken_mem {requests : List Request} {turns : List (Reply × TokenStream σ)}
    (h : s.converse requests = .ok turns) {i : Nat}
    (gone : .noToken ∈ (turns.take i).map Prod.fst) : (s.lastOf (turns.take i)).atEnd = true := by
  obtain ⟨⟨reply, after⟩, mem, rfl⟩ := List.mem_map.mp gone
  obtain ⟨j, hj, told⟩ := exists_lt_of_mem_take mem
  obtain ⟨request, asked⟩ := asked_of_told h told
  exact atEnd_later h hj told (atEnd_of_isLast (answer_of_converse h asked told) rfl)

theorem atEnd_of_close_mem {requests : List Request} {turns : List (Reply × TokenStream σ)}
    (h : s.converse requests = .ok turns) {i : Nat} (closed : .close ∈ requests.take i) :
    (s.lastOf (turns.take i)).atEnd = true := by
  obtain ⟨j, hj, asked⟩ := exists_lt_of_mem_take closed
  obtain ⟨turn, told⟩ := told_of_asked h asked
  have answered := answer_of_converse h asked told
  cases answered
  exact atEnd_later h hj told (atEnd_close _)

end Lexis.TokenStream
