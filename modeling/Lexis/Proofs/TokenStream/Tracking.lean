import Lexis.Proofs.TokenStream.Drawing

/-! Properties that tie a stream to the tokens pulled from it: what holds after every segment holds
after every pull. -/

namespace Lexis.TokenStream

variable {σ : Type} [CharSource σ] {known : String → Option Kind}

/-- A property of the tokens pulled so far and of the stream after them. Dealing with a segment
keeps it, and so does letting go of the source at the end. -/
structure Tracked (known : String → Option Kind) (P : List Token → TokenStream σ → Prop) : Prop where
  deal : ∀ {s s' : TokenStream σ} {g : Glyph} {gs rest : List Glyph} {p : Segment}
    {tokens : List Token} {found : Option Token}, s.symbols.Follows known → s.pending = g :: gs →
    Cuts known g gs p rest → s.Left p rest s' → s.deal p = .ok (found, s') → P tokens s →
    P (tokens ++ found.toList) s'
  ended : ∀ {s : TokenStream σ} {tokens : List Token}, s.pending = [] → P tokens s →
    P tokens s.close

namespace Tracked

variable {P : List Token → TokenStream σ → Prop} {s s' : TokenStream σ} (tokens : List Token)

theorem next (tracked : Tracked known P) {found : Option Token} (follows : s.symbols.Follows known)
    (h : P tokens s) (pulled : s.next = .ok (found, s')) :
    P (tokens ++ found.toList) s' ∧ s'.symbols.Follows known := by
  generalize hgs : s.pending = gs
  induction gs using segments_induction known generalizing s with
  | nil =>
      rw [next_of_end hgs] at pulled
      cases pulled
      rw [Option.toList_none, List.append_nil, symbols_close]
      exact ⟨tracked.ended hgs h, follows⟩
  | @step g gs p rest cuts ih =>
      have hs : s.pending = p.glyphs ++ rest := hgs.trans cuts.glyphs_append.symm
      rw [next_of_cuts follows hgs cuts] at pulled
      cases hp : p.kind? with
      | none =>
          obtain ⟨after, left, dealt⟩ := deal_other hs hp cuts.more_of_comment
          rw [dealt] at pulled
          have later := tracked.deal follows hgs cuts left dealt h
          rw [Option.toList_none, List.append_nil] at later
          exact ih (left.symbols ▸ follows_register cuts follows) later pulled left.pending
      | some kind =>
          obtain ⟨after, left, dealt⟩ := deal_lexeme hs (Segment.kind?_eq_some hp)
          cases held : p.token (s.symbols.intern p.spelling kind).1 with
          | error fault =>
              rw [held] at dealt
              rw [dealt] at pulled
              cases pulled
          | ok token =>
              rw [held] at dealt
              rw [dealt] at pulled
              cases pulled
              exact ⟨tracked.deal follows hgs cuts left dealt h,
                left.symbols ▸ follows_register cuts follows⟩

theorem pullAll (tracked : Tracked known P) {acc : Array Token}
    {pulled : Array Token × TokenStream σ} (follows : s.symbols.Follows known) (h : P tokens s)
    (drained : s.pullAll acc = .ok pulled) :
    ∃ more, pulled.1.toList = acc.toList ++ more ∧ P (tokens ++ more) pulled.2 := by
  fun_induction TokenStream.pullAll acc s generalizing tokens with
  | case1 => cases drained
  | case2 acc s s' ended =>
      cases drained
      exact ⟨[], (List.append_nil _).symm, (tracked.next _ follows h ended).1⟩
  | case3 acc s token s' found ih =>
      obtain ⟨later, follows'⟩ := tracked.next _ follows h found
      obtain ⟨more, all, kept⟩ := ih _ follows' later drained
      refine ⟨token :: more, ?_, ?_⟩
      · rw [all, Array.toList_push, List.append_assoc, List.singleton_append]
      · rwa [Option.toList_some, List.append_assoc, List.singleton_append] at kept

/-- What holds after every pull holds after every request that does not take diagnostics, unless it
closes the stream while there is more to read. -/
theorem answer (tracked : Tracked known P) {request : Request} {reply : Reply}
    (follows : s.symbols.Follows known) (quiet : request ≠ .takeDiagnostics)
    (closing : request = .close → P tokens s.close) (h : P tokens s)
    (answered : s.answer request = .ok (reply, s')) : P (tokens ++ reply.drawn) s' := by
  cases answers_of_answer answered with
  | token pulled => exact (tracked.next _ follows h pulled).1
  | noToken pulled => exact (tracked.next _ follows h pulled).1
  | rest pulled =>
      obtain ⟨more, all, later⟩ := tracked.pullAll _ follows h pulled
      rw [Reply.drawn, all]
      exact later
  | close =>
      rw [Reply.drawn, List.append_nil]
      exact closing rfl
  | diagnostics =>
      rw [Reply.drawn, List.append_nil]
      exact h
  | takeDiagnostics => exact absurd rfl quiet

end Tracked
end Lexis.TokenStream
