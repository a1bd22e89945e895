import Lexis.Proofs.Lexing.Tokenize
import Lexis.Proofs.TokenStream.Agreement
import Lexis.Proofs.TokenStream.Ending
import Lexis.Source.Script

/-! Pulling, draining, closing and asking for diagnostics in any order comes to what one drain of
the source comes to: the stream is a queue of the drain's tokens, and no diagnostic of the drain is
lost or told twice. -/

namespace Lexis.TokenStream

def Request.asksDiagnostics : Request → Bool
  | .diagnostics | .takeDiagnostics => true
  | .next | .rest | .close => false

def Reply.tellsDiagnostics : Reply → Bool
  | .diagnostics _ => true
  | .done | .token _ | .noToken | .tokens _ => false

/-- The diagnostics that a stream gives away with a reply. -/
def Request.takes : Request → Reply → List Diagnostic
  | .takeDiagnostics, .diagnostics ds => ds
  | _, _ => []

/-- What a queue of tokens answers, and what it holds then. Requests about diagnostics pass it
by. -/
def queueAnswer (tokens : List Token) : Request → Option Reply × List Token
  | .next => (some (tokens.head?.elim .noToken .token), tokens.tail)
  | .rest => (some (.tokens tokens), [])
  | .close => (some .done, [])
  | .diagnostics | .takeDiagnostics => (none, tokens)

def queueReplies : List Token → List Request → List Reply
  | _, [] => []
  | tokens, request :: requests =>
    (queueAnswer tokens request).1.toList ++ queueReplies (queueAnswer tokens request).2 requests

/-- A queue does not notice requests about diagnostics. -/
theorem queueReplies_filter (tokens : List Token) (requests : List Request) :
    queueReplies tokens (requests.filter (!·.asksDiagnostics)) = queueReplies tokens requests := by
  induction requests generalizing tokens with
  | nil => rfl
  | cons request requests ih =>
      cases request with
      | next => exact congrArg (_ :: ·) (ih _)
      | rest => exact congrArg (_ :: ·) (ih _)
      | close => exact congrArg (_ :: ·) (ih _)
      | diagnostics => exact ih _
      | takeDiagnostics => exact ih _

theorem drawn_queueReplies {tokens : List Token} {requests : List Request}
    (never : .close ∉ requests) :
    (queueReplies tokens requests).flatMap Reply.drawn =
      if .rest ∈ requests then tokens else tokens.take (requests.count .next) := by
  induction requests generalizing tokens with
  | nil => simp [queueReplies]
  | cons request requests ih =>
      obtain ⟨here, later⟩ := not_or.mp (mt List.mem_cons.mpr never)
      rw [queueReplies, List.flatMap_append, ih later]
      cases request with
      | next =>
          cases tokens with
          | nil => simp [queueAnswer, Reply.drawn]
          | cons token tokens =>
              have asked : .rest ∈ Request.next :: requests ↔ .rest ∈ requests := by simp
              simp only [asked, List.count_cons_self, List.take_succ_cons]
              split <;> rfl
      | rest => simp [queueAnswer, Reply.drawn]
      | close => exact absurd rfl here
      | diagnostics => simp [queueAnswer]
      | takeDiagnostics => simp [queueAnswer]

section

variable {σ : Type}

def taken (requests : List Request) (turns : List (Reply × TokenStream σ)) : List Diagnostic :=
  (List.zipWith (fun request turn => Request.takes request turn.1) requests turns).flatten

/-- All diagnostics of a stream after these turns: those given away, and those it still holds. -/
def account (s : TokenStream σ) (requests : List Request) (turns : List (Reply × TokenStream σ)) :
    List Diagnostic :=
  taken requests turns ++ (s.lastOf turns).diagnostics.toList

theorem account_cons (s : TokenStream σ) (request : Request) (requests : List Request)
    (turn : Reply × TokenStream σ) (turns : List (Reply × TokenStream σ)) :
    s.account (request :: requests) (turn :: turns) =
      request.takes turn.1 ++ turn.2.account requests turns := by
  rw [account, account, lastOf_cons, taken, List.zipWith_cons_cons, List.flatten_cons,
    List.append_assoc]
  rfl

theorem taken_cons (request : Request) (requests : List Request) (turn : Reply × TokenStream σ)
    (turns : List (Reply × TokenStream σ)) :
    taken (request :: requests) (turn :: turns) = request.takes turn.1 ++ taken requests turns := by
  rw [taken, List.zipWith_cons_cons, List.flatten_cons, taken]

theorem taken_append {requests : List Request} {turns : List (Reply × TokenStream σ)}
    (same : requests.length = turns.length) (more : List Request)
    (later : List (Reply × TokenStream σ)) :
    taken (requests ++ more) (turns ++ later) = taken requests turns ++ taken more later := by
  rw [taken, List.zipWith_append same, List.flatten_append, taken, taken]

end

variable {σ : Type} [CharSource σ] {s s' : TokenStream σ} {requests : List Request}
  {turns : List (Reply × TokenStream σ)} {tokens : List Token} {ds : List Diagnostic}

/-- Drained now, a stream would hand out these tokens and hold these diagnostics. -/
def Owes (s : TokenStream σ) (tokens : List Token) (ds : List Diagnostic) : Prop :=
  ∃ table, s.drained #[] = .ok (tokens, ds, table)

theorem owes_iff_of_atEnd (ended : s.atEnd = true) :
    s.Owes tokens ds ↔ tokens = [] ∧ ds = s.diagnostics.toList := by
  rw [Owes, drained_of_end (atEnd_iff.mp ended)]
  simp [eq_comm]

theorem owes_ofSource {source : σ} {table : SymbolTable} {t : Tokenization}
    (h : Tokenization.ofSource source table = .ok t) :
    (ofSource source table).Owes t.tokens t.diagnostics := by
  rw [Tokenization.ofSource_eq_drained] at h
  obtain ⟨found, drained, rfl⟩ := ok_of_map h
  exact ⟨found.2.2, drained⟩

theorem Owes.take (h : s.Owes tokens ds) :
    ∃ coming, ds = s.diagnostics.toList ++ coming ∧ s.takeDiagnostics.2.Owes tokens coming := by
  obtain ⟨table, drained⟩ := h
  rw [drained_eq (.refl s.symbols)] at drained
  obtain ⟨found, collected, same⟩ := ok_of_map drained
  cases same
  refine ⟨_, rfl, found.2, ?_⟩
  rw [drained_eq (s := s.takeDiagnostics.2) (.refl s.symbols)]
  exact map_eq_ok.mpr ⟨found, collected, rfl⟩

theorem Owes.next (h : s.Owes tokens ds) :
    ∃ s', s.next = .ok (tokens.head?, s') ∧ s'.Owes tokens.tail ds := by
  obtain ⟨table, drained⟩ := h
  cases pulled : s.next with
  | error fault => cases (drained_of_fault pulled #[]).symm.trans drained
  | ok turn =>
      obtain ⟨found, s'⟩ := turn
      cases found with
      | none =>
          have ended := atEnd_of_next pulled
          rw [TokenStream.drained, pullAll_eq_match, pulled] at drained
          cases drained
          exact ⟨s', rfl, (owes_iff_of_atEnd ended).mpr ⟨rfl, rfl⟩⟩
      | some token =>
          rw [drained_of_token pulled, drained_eq (.refl s'.symbols)] at drained
          obtain ⟨found, collected, same⟩ := ok_of_map drained
          cases same
          refine ⟨s', rfl, found.2, ?_⟩
          rw [drained_eq (.refl s'.symbols)]
          exact map_eq_ok.mpr ⟨found, collected, rfl⟩

theorem Owes.rest (h : s.Owes tokens ds) : ∃ s', s.rest = .ok (tokens, s') ∧ s'.Owes [] ds := by
  obtain ⟨table, drained⟩ := h
  obtain ⟨pulled, hpulled, same⟩ := ok_of_map drained
  cases same
  refine ⟨pulled.2, map_eq_ok.mpr ⟨pulled, hpulled, rfl⟩, ?_⟩
  exact (owes_iff_of_atEnd (atEnd_of_pullAll hpulled)).mpr ⟨rfl, rfl⟩

/-- A stream answers as the queue of the tokens that it owes. What it hands out is owed no more, and
closing drops the rest. -/
theorem Owes.answer (h : s.Owes tokens ds) (request : Request) :
    ∃ reply s' ds', s.answer request = .ok (reply, s') ∧
      [reply].filter (!·.tellsDiagnostics) = (queueAnswer tokens request).1.toList ∧
      s'.Owes (queueAnswer tokens request).2 ds' ∧
      (request ≠ .close → reply.drawn ++ (queueAnswer tokens request).2 = tokens ∧
        request.takes reply ++ ds' = ds) ∧
      (request = .close → s' = s.close) := by
  cases request with
  | next =>
      obtain ⟨s', pulled, owes⟩ := h.next
      rw [TokenStream.answer, pulled]
      cases tokens with
      | nil => exact ⟨.noToken, s', ds, rfl, rfl, owes, fun _ => ⟨rfl, rfl⟩,
        fun closing => by cases closing⟩
      | cons token tokens =>
          exact ⟨.token token, s', ds, rfl, rfl, owes, fun _ => ⟨rfl, rfl⟩,
            fun closing => by cases closing⟩
  | rest =>
      obtain ⟨s', drained, owes⟩ := h.rest
      rw [TokenStream.answer, drained]
      exact ⟨_, s', ds, rfl, rfl, owes, fun _ => ⟨List.append_nil tokens, rfl⟩,
        fun closing => by cases closing⟩
  | close =>
      have owes := (owes_iff_of_atEnd (atEnd_close s)).mpr ⟨rfl, rfl⟩
      exact ⟨_, s.close, _, rfl, rfl, owes, fun other => absurd rfl other, fun _ => rfl⟩
  | diagnostics => exact ⟨_, s, ds, rfl, rfl, h, fun _ => ⟨rfl, rfl⟩,
    fun closing => by cases closing⟩
  | takeDiagnostics =>
      obtain ⟨coming, split, owes⟩ := h.take
      exact ⟨_, _, coming, rfl, rfl, owes, fun _ => ⟨rfl, split.symm⟩,
        fun closing => by cases closing⟩

theorem Owes.converse (h : s.Owes tokens ds) (requests : List Request) :
    ∃ turns, s.converse requests = .ok turns ∧
      (turns.map Prod.fst).filter (!·.tellsDiagnostics) = queueReplies tokens requests := by
  -- What is still owed after a request is what the later requests are answered from.
  induction requests generalizing s tokens ds with
  | nil => exact ⟨[], rfl, rfl⟩
  | cons request requests ih =>
      obtain ⟨reply, s', ds', answered, queued, owes, -⟩ := h.answer request
      obtain ⟨later, conversed, replies⟩ := ih owes
      refine ⟨(reply, s') :: later, ?_, ?_⟩
      · rw [TokenStream.converse, answered]
        exact map_eq_ok.mpr ⟨later, conversed, rfl⟩
      · rw [queueReplies, ← queued, ← replies, List.map_cons, ← List.singleton_append,
          List.filter_append]

/-- A stream at its end hands out nothing, and gives away only the diagnostics that it holds. -/
theorem answer_of_atEnd (ended : s.atEnd = true) {request : Request} {reply : Reply}
    (h : s.answer request = .ok (reply, s')) :
    reply.drawn = [] ∧ request.takes reply ++ s'.diagnostics.toList = s.diagnostics.toList := by
  have held : s.close.diagnostics.toList = s.diagnostics.toList :=
    congrArg Array.toList (diagnostics_close s)
  cases answers_of_answer h with
  | token pulled =>
      rw [next_of_atEnd ended] at pulled
      cases pulled
  | noToken pulled =>
      rw [next_of_atEnd ended] at pulled
      cases pulled
      exact ⟨rfl, held⟩
  | rest pulled =>
      rw [pullAll_eq_match, next_of_atEnd ended] at pulled
      cases pulled
      exact ⟨rfl, held⟩
  | close => exact ⟨rfl, held⟩
  | diagnostics => exact ⟨rfl, rfl⟩
  | takeDiagnostics => exact ⟨rfl, List.append_nil _⟩

theorem account_take_succ (h : s.converse requests = .ok turns) {i : Nat} {request : Request}
    {turn : Reply × TokenStream σ} (asked : requests[i]? = some request)
    (told : turns[i]? = some turn) :
    s.account (requests.take (i + 1)) (turns.take (i + 1)) =
      taken (requests.take i) (turns.take i) ++
        (request.takes turn.1 ++ turn.2.diagnostics.toList) := by
  have same := (length_converse (converse_take h i)).symm
  rw [account, lastOf_take_succ s turn told, List.take_add_one, asked, List.take_add_one, told,
    taken_append same, List.append_assoc]
  simp [taken]

theorem settled_of_atEnd (h : s.converse requests = .ok turns) {i n : Nat} (hin : i ≤ n)
    (ended : (s.lastOf (turns.take i)).atEnd = true) :
    handed (turns.take n) = handed (turns.take i) ∧
      s.account (requests.take n) (turns.take n) = s.account (requests.take i) (turns.take i) := by
  induction n, hin using Nat.le_induction with
  | base => exact ⟨rfl, rfl⟩
  | succ n hin ih =>
      cases told : turns[n]? with
      | none =>
          have asked : requests[n]? = none :=
            List.getElem?_eq_none_iff.mpr (length_converse h ▸ List.getElem?_eq_none_iff.mp told)
          rwa [List.take_add_one, List.take_add_one, told, asked, Option.toList_none,
            Option.toList_none, List.append_nil, List.append_nil]
      | some turn =>
          obtain ⟨request, asked⟩ := asked_of_told h told
          have still := holds_from (fun _ => atEnd_answer) h hin ended
          obtain ⟨nothing, same⟩ := answer_of_atEnd still (answer_of_converse h asked told)
          rw [account_take_succ h asked told, same, handed_take_succ turn told, nothing,
            List.append_nil]
          exact ih

theorem account_of_atEnd (h : s.converse requests = .ok turns) (ended : s.atEnd = true) :
    s.account requests turns = s.diagnostics.toList := by
  obtain ⟨-, settled⟩ := settled_of_atEnd h (Nat.zero_le requests.length) ended
  rwa [List.take_length, ← length_converse h, List.take_length] at settled

theorem settled_of_close (h : s.converse requests = .ok turns) {m : Nat}
    (asked : requests[m]? = some .close) :
    (s.lastOf (turns.take (m + 1))).atEnd = true ∧
      handed (turns.take (m + 1)) = handed (turns.take m) ∧
      s.account (requests.take (m + 1)) (turns.take (m + 1)) =
        s.account (requests.take m) (turns.take m) := by
  obtain ⟨turn, told⟩ := told_of_asked h asked
  have answered := answer_of_converse h asked told
  rw [lastOf_take_succ s turn told, handed_take_succ turn told, account_take_succ h asked told]
  cases answered
  refine ⟨atEnd_close _, List.append_nil _, ?_⟩
  rw [diagnostics_close]
  rfl

theorem Owes.held_prefix (h : s.Owes tokens ds) : s.diagnostics.toList <+: ds := by
  obtain ⟨coming, split, -⟩ := h.take
  exact ⟨coming, split.symm⟩

/-- A stream that is not closed still owes what it did not hand out and give away. The account never
goes beyond the diagnostics owed at first. -/
theorem Owes.account (h : s.Owes tokens ds) (conversed : s.converse requests = .ok turns) :
    s.account requests turns <+: ds ∧
      (.close ∉ requests → ∃ left coming, (s.lastOf turns).Owes left coming ∧
        handed turns ++ left = tokens ∧ taken requests turns ++ coming = ds) := by
  induction requests generalizing s tokens ds turns with
  | nil =>
      cases conversed
      exact ⟨h.held_prefix, fun _ => ⟨tokens, ds, h, rfl, rfl⟩⟩
  | cons request requests ih =>
      obtain ⟨reply, s', ds', answered, -, owes, kept, closed⟩ := h.answer request
      obtain ⟨turn, later, answered', conversed', rfl⟩ := converse_cons conversed
      cases answered.symm.trans answered'
      obtain ⟨told, goesOn⟩ := ih owes conversed'
      rw [account_cons]
      -- Closing gives up what is owed, and leaves the diagnostics that are already held.
      by_cases closing : request = .close
      · refine ⟨?_, fun never => absurd (closing ▸ List.mem_cons_self) never⟩
        rw [closed closing] at conversed' ⊢
        rw [account_of_atEnd conversed' (atEnd_close s), diagnostics_close, closing]
        exact h.held_prefix
      · obtain ⟨handedOut, given⟩ := kept closing
        constructor
        · rw [← given]
          exact (List.prefix_append_right_inj _).mpr told
        · intro never
          obtain ⟨left, coming, owes', split, split'⟩ :=
            goesOn (fun mem => never (List.mem_cons_of_mem _ mem))
          refine ⟨left, coming, ?_, ?_, ?_⟩
          · rw [lastOf_cons]
            exact owes'
          · rw [handed_cons, List.append_assoc, split, handedOut]
          · rw [taken_cons, List.append_assoc, split', given]

theorem Owes.complete (h : s.Owes tokens ds) (conversed : s.converse requests = .ok turns) {i : Nat}
    {turn : Reply × TokenStream σ} (never : .close ∉ requests.take i) (told : turns[i]? = some turn)
    (last : turn.1.isLast = true) :
    (s.lastOf (turns.take (i + 1))).atEnd = true ∧ handed (turns.take (i + 1)) = tokens ∧
      s.account (requests.take (i + 1)) (turns.take (i + 1)) = ds := by
  obtain ⟨request, asked⟩ := asked_of_told conversed told
  have answered := answer_of_converse conversed asked told
  have ended : (s.lastOf (turns.take (i + 1))).atEnd = true := by
    rw [lastOf_take_succ s turn told]
    exact atEnd_of_isLast answered last
  have never' : .close ∉ requests.take (i + 1) := by
    rw [List.take_add_one, asked, List.mem_append, not_or]
    refine ⟨never, ?_⟩
    intro closing
    obtain rfl : .close = request := List.mem_singleton.mp closing
    cases answered
    cases last
  obtain ⟨left, coming, owes, split, given⟩ :=
    (h.account (converse_take conversed (i + 1))).2 never'
  obtain ⟨rfl, rfl⟩ := (owes_iff_of_atEnd ended).mp owes
  exact ⟨ended, (List.append_nil _).symm.trans split, given⟩

theorem tells_of_answer {request : Request} {reply : Reply} (h : s.answer request = .ok (reply, s')) :
    reply.tellsDiagnostics = request.asksDiagnostics := by
  cases answers_of_answer h <;> rfl

theorem not_tells_of_converse (h : s.converse requests = .ok turns)
    (never : ∀ request ∈ requests, request.asksDiagnostics = false) :
    ∀ reply ∈ turns.map Prod.fst, reply.tellsDiagnostics = false := by
  intro reply mem
  obtain ⟨turn, hturn, rfl⟩ := List.mem_map.mp mem
  obtain ⟨i, told⟩ := List.mem_iff_getElem?.mp hturn
  obtain ⟨request, asked⟩ := asked_of_told h told
  rw [tells_of_answer (answer_of_converse h asked told)]
  exact never request (List.mem_of_getElem? asked)

omit [CharSource σ] in
theorem handed_eq (turns : List (Reply × TokenStream σ)) :
    handed turns = ((turns.map Prod.fst).filter (!·.tellsDiagnostics)).flatMap Reply.drawn := by
  induction turns with
  | nil => rfl
  | cons turn turns ih =>
      obtain ⟨reply, after⟩ := turn
      rw [handed_cons, ih]
      cases reply <;> rfl

/-- Requests in any order come to what one drain of the source comes to. Closing is final, and
asking for diagnostics changes no other reply. -/
theorem converse_agrees (source : σ) (table : SymbolTable) {t : Tokenization}
    (h : Tokenization.ofSource source table = .ok t) (requests : List Request) :
    let s := ofSource source table
    ∃ turns, s.converse requests = .ok turns ∧
      let handedAt (n : Nat) := handed (turns.take n)
      let accountAt (n : Nat) := s.account (requests.take n) (turns.take n)
      (∀ n, .close ∉ requests.take n → handedAt n =
        if .rest ∈ requests.take n then t.tokens
        else t.tokens.take ((requests.take n).count .next)) ∧
      (∀ n, accountAt n <+: t.diagnostics) ∧
      (∀ i n turn, i < n → .close ∉ requests.take i → turns[i]? = some turn →
        turn.1.isLast = true → handedAt n = t.tokens ∧ accountAt n = t.diagnostics) ∧
      (∀ m n, requests[m]? = some .close → m ≤ n →
        handedAt n = handedAt m ∧ accountAt n = accountAt m) ∧
      ∃ others, s.converse (requests.filter (!·.asksDiagnostics)) = .ok others ∧
        (turns.map Prod.fst).filter (!·.tellsDiagnostics) = others.map Prod.fst := by
  intro s
  have owes : s.Owes t.tokens t.diagnostics := owes_ofSource h
  obtain ⟨turns, conversed, replies⟩ := owes.converse requests
  refine ⟨turns, conversed, ?_⟩
  intro handedAt accountAt
  refine ⟨?_, ?_, ?_, ?_, ?_⟩
  · intro n never
    obtain ⟨before, conversed', replies'⟩ := owes.converse (requests.take n)
    cases conversed'.symm.trans (converse_take conversed n)
    rw [← drawn_queueReplies never, ← replies', ← handed_eq]
  · intro n
    exact (owes.account (converse_take conversed n)).1
  · intro i n turn hin never told last
    obtain ⟨ended, complete⟩ := owes.complete conversed never told last
    obtain ⟨sameHanded, sameAccount⟩ := settled_of_atEnd conversed hin ended
    exact ⟨sameHanded.trans complete.1, sameAccount.trans complete.2⟩
  · intro m n asked hmn
    rcases hmn.eq_or_lt with rfl | later
    · exact ⟨rfl, rfl⟩
    · obtain ⟨ended, handedBefore, accountBefore⟩ := settled_of_close conversed asked
      obtain ⟨sameHanded, sameAccount⟩ := settled_of_atEnd conversed later ended
      exact ⟨sameHanded.trans handedBefore, sameAccount.trans accountBefore⟩
  · obtain ⟨others, conversed', replies'⟩ := owes.converse (requests.filter (!·.asksDiagnostics))
    refine ⟨others, conversed', ?_⟩
    rw [queueReplies_filter] at replies'
    rw [replies, ← replies', List.filter_eq_self]
    intro reply mem
    have silent := not_tells_of_converse conversed' (by simp) reply mem
    simp [silent]

/-- A stream is closed between its only token and a character that would be reported. -/
theorem converse_agrees_closing :
    let source : Script := ⟨[.char ⟨'1', 1, 0⟩, .char ⟨'#', 1, 1⟩, .failure .notUtf8]⟩
    ∃ t turns, Tokenization.ofSource source .standard = .ok t ∧
      t.tokens = [⟨⟨51, "1", .integerLiteral⟩, 1, 0, 0⟩] ∧
      t.diagnostics = [⟨.sourceUnreadable Failure.notUtf8.message, 1, 1⟩,
        ⟨.illegalCharacter "#", 1, 1⟩] ∧
      (ofSource source .standard).converse [.takeDiagnostics, .next, .close, .next] = .ok turns ∧
      handed turns = t.tokens ∧
      (ofSource source .standard).account [.takeDiagnostics, .next, .close, .next] turns <+:
        t.diagnostics := by
  intro source
  have found : (Tokenization.ofSource source .standard).map
      (fun t => (t.tokens, t.diagnostics)) = .ok ([⟨⟨51, "1", .integerLiteral⟩, 1, 0, 0⟩],
        [⟨.sourceUnreadable Failure.notUtf8.message, 1, 1⟩, ⟨.illegalCharacter "#", 1, 1⟩]) := by
    decide +kernel
  obtain ⟨t, drained, same⟩ := ok_of_map found
  obtain ⟨tokens, diagnostics⟩ := Prod.mk.inj same
  obtain ⟨turns, conversed, pulled, told, -, closed, -⟩ :=
    converse_agrees source .standard drained [.takeDiagnostics, .next, .close, .next]
  have all : turns.take 4 = turns := List.take_of_length_le (length_converse conversed).le
  have settled : handed (turns.take 4) = handed (turns.take 2) := (closed 2 4 rfl (by decide)).1
  have first : handed (turns.take 2) = t.tokens := by
    rw [tokens]
    exact (pulled 2 (by decide)).trans (by rw [tokens]; rfl)
  rw [all] at settled
  refine ⟨t, turns, drained, tokens, diagnostics, conversed, settled.trans first, ?_⟩
  have whole : account _ _ (turns.take 4) <+: t.diagnostics := told 4
  rwa [all] at whole

end Lexis.TokenStream
