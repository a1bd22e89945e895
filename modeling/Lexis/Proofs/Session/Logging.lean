import Lexis.Proofs.Lexing.CommentLines
import Lexis.Proofs.Session.Registration
import Lexis.Proofs.Source.Reading
import Lexis.Proofs.TokenStream.Interleaving
import Lexis.Proofs.TokenStream.Keeping
import Lexis.Proofs.TokenStream.Logging

/-! The log of a scan tells what the scan handed out, recorded and skipped, and ends where the
source was let go of. -/

namespace Lexis

def Source.lines : Source → Nat
  | .reader r => r.line
  | .script _ => 0

/-- What is logged as the source of an input is closed, after so many lines. Only a line reader says
that it was closed. -/
def Input.parting (input : Input) (lines : Nat) : List LogEvent :=
  match input with
  | .script _ => []
  | .bytes _ | .file _ _ => [.closedSource lines]

section

variable {input : Input} {m : Metered Source}

/-- Closed now, the source would say so as the source of an input does. -/
def Metered.Parts (input : Input) (m : Metered Source) : Prop :=
  CharSource.closingEvents m = input.parting m.source.lines

theorem Metered.Parts.read (h : m.Parts input) : (CharSource.read m).2.Parts input := by
  obtain ⟨source, reads, closes⟩ := m
  cases source with
  | script outcomes => exact h
  | reader r =>
      change r.closingEvents = input.parting r.line at h
      change r.read.2.closingEvents = input.parting r.read.2.line
      unfold LineReader.closingEvents at h ⊢
      rw [r.isClosed_read]
      cases closed : r.isClosed <;> cases input <;> simp_all [Input.parting]

theorem Metered.lines_close (m : Metered Source) :
    (CharSource.close m).source.lines = m.source.lines := by
  obtain ⟨source, reads, closes⟩ := m
  cases source <;> rfl

end

namespace Scan

variable {input : Input} {taken : List Diagnostic} {tokens : List Token} {left : Nat}
  {s s' : MeteredStream}

/-- A stream holds the source of an input. Its log tells of these tokens, and of the diagnostics
that were taken or are still there. -/
structure Held (input : Input) (taken : List Diagnostic) (tokens : List Token)
    (s : MeteredStream) : Prop where
  released : s.released = false
  parts : s.source.Parts input
  told : ∃ comments, Tells s.log.toList tokens comments (taken ++ s.diagnostics.toList)

/-- A stream let go of the source of an input when so many diagnostics were left. Its log ends with
that, and tells of the rest before. -/
structure Gone (input : Input) (left : Nat) (taken : List Diagnostic) (tokens : List Token)
    (s : MeteredStream) : Prop where
  released : s.released = true
  ended : s.lookahead = none
  told : ∃ events comments,
    s.log.toList = events ++ input.parting s.source.source.lines ++ [.releasedSource left] ∧
      Tells events tokens comments (taken ++ s.diagnostics.toList)

theorem kept_parts (input : Input) :
    TokenStream.Kept fun s : MeteredStream => s.released = false → s.source.Parts input where
  advance := by
    intro s g _ h held
    have still : s.released = false := (TokenStream.Logs.advance s).released ▸ held
    rw [TokenStream.advance_of_held still, TokenStream.source_receive]
    exact (h still).read
  found := by
    intro s symbols diagnostics log h
    exact h
  ended := by
    intro s _ _ held
    rw [TokenStream.released_close] at held
    cases held

theorem Held.logs {more : List Token} {comments : List Nat} (h : Held input taken tokens s)
    (logs : s.Logs more comments s') (parts : s'.source.Parts input) :
    Held input taken (tokens ++ more) s' := by
  obtain ⟨before, told⟩ := h.told
  obtain ⟨released, events, news, log, diagnostics, tells⟩ := logs
  refine ⟨released.trans h.released, parts, before ++ comments, ?_⟩
  rw [log, diagnostics, ← List.append_assoc]
  exact told.append tells

theorem Held.close (h : Held input taken tokens s) :
    Gone input s.diagnostics.size taken tokens s.close := by
  obtain ⟨comments, told⟩ := h.told
  have parts : CharSource.closingEvents s.source = input.parting s.source.source.lines := h.parts
  rw [TokenStream.close, h.released, if_neg Bool.false_ne_true]
  refine ⟨rfl, rfl, s.log.toList, comments, ?_, told⟩
  rw [Metered.lines_close, ← parts, Array.toList_push, Array.toList_appendList]

theorem Gone.close_eq (h : Gone input left taken tokens s) : s.close = s := by
  obtain ⟨source, symbols, lookahead, released, diagnostics, log⟩ := s
  obtain rfl : released = true := h.released
  obtain rfl : lookahead = none := h.ended
  rfl

/-- Whatever is pulled, a stream holds its source, or has just let go of it. -/
theorem tracked (input : Input) (taken : List Diagnostic) (known : String → Option Kind) :
    TokenStream.Tracked known fun tokens (s : MeteredStream) =>
      Held input taken tokens s ∨ Gone input s.diagnostics.size taken tokens s where
  deal := by
    rintro s s' g gs rest p tokens found - hs cuts - dealt (held | gone)
    · have logs := TokenStream.Logs.deal cuts dealt
      have parts := (kept_parts input).deal (hs.trans cuts.glyphs_append.symm)
        (fun _ => held.parts) dealt
      exact .inl (held.logs logs (parts (logs.released.trans held.released)))
    · have ahead := TokenStream.lookahead_of_pending hs
      rw [gone.ended] at ahead
      cases ahead
  ended := by
    rintro s tokens - (held | gone)
    · rw [TokenStream.diagnostics_close]
      exact .inr held.close
    · rw [gone.close_eq]
      exact .inr gone

variable {request : TokenStream.Request} {reply : TokenStream.Reply}

theorem takes_of_ne (quiet : request ≠ .takeDiagnostics) : request.takes reply = [] := by
  cases request with
  | takeDiagnostics => exact absurd rfl quiet
  | _ => rfl

theorem Held.answer (h : Held input taken tokens s) (answered : s.answer request = .ok (reply, s')) :
    Held input (taken ++ request.takes reply) (tokens ++ reply.drawn) s' ∨
      Gone input s'.diagnostics.size (taken ++ request.takes reply) (tokens ++ reply.drawn) s' := by
  by_cases quiet : request = .takeDiagnostics
  · subst quiet
    cases answered
    obtain ⟨comments, told⟩ := h.told
    refine .inl ⟨h.released, h.parts, comments, ?_⟩
    simpa [TokenStream.Request.takes, TokenStream.Reply.drawn, TokenStream.takeDiagnostics] using told
  · rw [takes_of_ne quiet, List.append_nil]
    apply (tracked input taken _).answer tokens (.refl s.symbols) quiet ?_ (.inl h) answered
    rintro -
    rw [TokenStream.diagnostics_close]
    exact .inr h.close

theorem Gone.answer (h : Gone input left taken tokens s)
    (answered : s.answer request = .ok (reply, s')) :
    Gone input left (taken ++ request.takes reply) (tokens ++ reply.drawn) s' := by
  have ended : s.atEnd = true := by rw [TokenStream.atEnd, h.ended, Option.isNone_none]
  have same : s' = { s with diagnostics := s'.diagnostics } := by
    cases TokenStream.answers_of_answer answered with
    | token pulled =>
        rw [TokenStream.next_of_atEnd ended] at pulled
        cases pulled
    | noToken pulled =>
        rw [TokenStream.next_of_atEnd ended, h.close_eq] at pulled
        cases pulled
        rfl
    | rest pulled =>
        rw [TokenStream.pullAll_eq_match, TokenStream.next_of_atEnd ended, h.close_eq] at pulled
        cases pulled
        rfl
    | close => rw [h.close_eq]
    | diagnostics => rfl
    | takeDiagnostics => rfl
  obtain ⟨nothing, given⟩ := TokenStream.answer_of_atEnd ended answered
  obtain ⟨events, comments, log, tells⟩ := h.told
  rw [nothing, List.append_nil]
  rw [same]
  refine ⟨h.released, h.ended, events, comments, log, ?_⟩
  change Tells events tokens comments (taken ++ request.takes reply ++ s'.diagnostics.toList)
  rwa [List.append_assoc, given]

variable {requests : List TokenStream.Request} {turns : List (TokenStream.Reply × MeteredStream)}

theorem Gone.converse (h : Gone input left taken tokens s)
    (conversed : s.converse requests = .ok turns) :
    Gone input left (taken ++ TokenStream.taken requests turns) (tokens ++ TokenStream.handed turns)
      (s.lastOf turns) := by
  induction requests generalizing s taken tokens turns with
  | nil =>
      cases conversed
      simpa [TokenStream.taken] using h
  | cons request requests ih =>
      obtain ⟨turn, later, answered, conversed', rfl⟩ := TokenStream.converse_cons conversed
      have rest := ih (h.answer answered) conversed'
      rwa [List.append_assoc, List.append_assoc, ← TokenStream.taken_cons,
        ← TokenStream.handed_cons, ← s.lastOf_cons] at rest

/-- Given up after a conversation, a stream has let go of its source: at the first moment when the
source is released, or else now. -/
theorem Held.converse (h : Held input taken tokens s) (conversed : s.converse requests = .ok turns) :
    ∃ n ≤ turns.length, (∀ m < n, (s.lastOf (turns.take m)).released = false) ∧
      (n < turns.length → (s.lastOf (turns.take n)).released = true) ∧
      Gone input (s.lastOf (turns.take n)).diagnostics.size
        (taken ++ TokenStream.taken requests turns) (tokens ++ TokenStream.handed turns)
        (s.lastOf turns).close := by
  induction requests generalizing s taken tokens turns with
  | nil =>
      cases conversed
      refine ⟨0, Nat.le_refl 0, nofun, nofun, ?_⟩
      simpa [TokenStream.taken] using h.close
  | cons request requests ih =>
      obtain ⟨turn, later, answered, conversed', rfl⟩ := TokenStream.converse_cons conversed
      simp only [TokenStream.taken_cons, TokenStream.handed_cons, TokenStream.lastOf_cons,
        ← List.append_assoc, List.length_cons]
      rcases h.answer answered with held | gone
      · obtain ⟨n, le, before, after, gone⟩ := ih held conversed'
        refine ⟨n + 1, Nat.succ_le_succ le, ?_, ?_, ?_⟩
        · intro m hm
          cases m with
          | zero => exact h.released
          | succ m =>
              rw [List.take_succ_cons, TokenStream.lastOf_cons]
              exact before m (Nat.lt_of_succ_lt_succ hm)
        · intro more
          rw [List.take_succ_cons, TokenStream.lastOf_cons]
          exact after (Nat.lt_of_succ_lt_succ more)
        · rw [List.take_succ_cons, TokenStream.lastOf_cons]
          exact gone
      · refine ⟨1, Nat.succ_le_succ (Nat.zero_le _), ?_, fun _ => gone.released, ?_⟩
        · intro m hm
          obtain rfl : m = 0 := by omega
          exact h.released
        · have rest := gone.converse conversed'
          rw [rest.close_eq]
          exact rest

theorem opened_tells {table : SymbolTable} {opened : MeteredStream}
    (h : input.stream table = .ok opened) :
    opened.released = false ∧ opened.source.Parts input ∧
      Tells opened.log.toList [] [] opened.diagnostics.toList := by
  rw [Input.stream_eq] at h
  obtain ⟨source, given, rfl⟩ := ok_of_map h
  have parts : Metered.Parts input ⟨source, 0, 0⟩ := by
    cases input with
    | bytes content =>
        cases given
        rfl
    | script outcomes =>
        cases given
        rfl
    | file files path =>
        obtain ⟨entry, -, rfl⟩ := ok_of_map given
        cases entry <;> rfl
  have opening : Tells input.openingEvents.toList [] [] [] := by
    cases input with
    | bytes content => exact .nil
    | script outcomes => exact .nil
    | file files path => exact .openedFile path
  obtain ⟨released, events, news, log, diagnostics, tells⟩ := TokenStream.Logs.advance
    { source := (⟨source, 0, 0⟩ : Metered Source), symbols := table, log := input.openingEvents }
  refine ⟨released, ?_, ?_⟩
  · rw [TokenStream.advance_of_held rfl, TokenStream.source_receive]
    exact parts.read
  · rw [log, diagnostics]
    exact opening.append tells

theorem Gone.told_whole (h : Gone input left taken tokens s) :
    logged "scanned token" s.log.toList = tokens.map .scannedToken ∧
      (s.log.toList.filter LogEvent.isAlarm).map LogEvent.written =
        (taken ++ s.diagnostics.toList).map Diagnostic.written := by
  obtain ⟨events, comments, log, tells⟩ := h.told
  have silent (lines : Nat) :
      logged "scanned token" (input.parting lines ++ [.releasedSource left]) = [] ∧
        (input.parting lines ++ [LogEvent.releasedSource left]).filter LogEvent.isAlarm = [] := by
    cases input <;> exact ⟨rfl, rfl⟩
  obtain ⟨tokenless, calm⟩ := silent s.source.source.lines
  constructor
  · rw [log, List.append_assoc, logged_append, tokenless, tells.tokens, List.append_nil]
  · rw [log, List.append_assoc, List.filter_append, calm, List.append_nil, tells.alarms]

/-! Comments. -/

section

variable {known : String → Option Kind} {all : List Nat}

/-- The comments on record and those still to come are on these lines. -/
def Remarks (known : String → Option Kind) (all : List Nat) (s : MeteredStream) : Prop :=
  logged "skipping comment" s.log.toList ++
    ((segments known s.pending).filterMap Segment.comment?).map .skippedComment =
      all.map .skippedComment

theorem logged_close (s : MeteredStream) :
    logged "skipping comment" s.close.log.toList = logged "skipping comment" s.log.toList := by
  have silent : logged "skipping comment" (CharSource.closingEvents s.source) = [] := by
    obtain ⟨source, reads, closes⟩ := s.source
    cases source with
    | script outcomes => rfl
    | reader r =>
        change logged _ r.closingEvents = []
        unfold LineReader.closingEvents
        split <;> rfl
  unfold TokenStream.close
  split
  · rfl
  · rw [Array.toList_push, Array.toList_appendList, logged_append, logged_append, silent,
      List.append_nil]
    exact List.append_nil _

theorem Remarks.iff_of_atEnd (ended : s.atEnd = true) :
    Remarks known all s ↔ logged "skipping comment" s.log.toList = all.map .skippedComment := by
  rw [Remarks, TokenStream.atEnd_iff.mp ended, segments_nil, List.filterMap_nil, List.map_nil,
    List.append_nil]

theorem Remarks.close (h : Remarks known all s) (ended : s.atEnd = true) :
    Remarks known all s.close := by
  rw [iff_of_atEnd (TokenStream.atEnd_close s), logged_close]
  exact (iff_of_atEnd ended).mp h

theorem tracked_remarks (known : String → Option Kind) (all : List Nat) :
    TokenStream.Tracked known fun _ => Remarks known all where
  deal := by
    intro s s' g gs rest p tokens found _ hs cuts left dealt h
    obtain ⟨-, events, news, log, -, tells⟩ := TokenStream.Logs.deal cuts dealt
    unfold Remarks at h ⊢
    rw [hs, cuts.segments_eq] at h
    rw [left.pending, log, logged_append, tells.comments, ← h]
    cases here : p.comment? with
    | none => simp [here]
    | some line => simp [here]
  ended := by
    intro s tokens hs h
    exact h.close (TokenStream.atEnd_iff.mpr hs)

theorem Remarks.answer (follows : s.symbols.Follows known)
    (closing : request = .close → s.atEnd = true) (h : Remarks known all s)
    (answered : s.answer request = .ok (reply, s')) : Remarks known all s' := by
  by_cases quiet : request = .takeDiagnostics
  · subst quiet
    cases answered
    exact h
  · exact (tracked_remarks known all).answer [] follows quiet (fun asked => h.close (closing asked)) h
      answered

/-- Drained before it is closed, a stream logs all comments of its source. -/
theorem Remarks.drained (follows : s.symbols.Follows known) (h : Remarks known all s)
    (conversed : s.converse requests = .ok turns) {i : Nat}
    {turn : TokenStream.Reply × MeteredStream} (told : turns[i]? = some turn)
    (last : turn.1.isLast = true) (never : .close ∉ requests.take i) :
    logged "skipping comment" (s.lastOf turns).close.log.toList = all.map .skippedComment := by
  obtain ⟨request, asked⟩ := TokenStream.asked_of_told conversed told
  have answered := TokenStream.answer_of_converse conversed asked told
  have open' : .close ∉ requests.take (i + 1) := by
    rw [List.take_add_one, asked, List.mem_append]
    rintro (before | here)
    · exact never before
    · cases List.mem_singleton.mp here
      cases answered
      cases last
  -- Up to the last token the stream is not closed; from there on it has no comment to lose.
  have drained : (s.lastOf (turns.take (i + 1))).symbols.Follows known ∧
      Remarks known all (s.lastOf (turns.take (i + 1))) := by
    apply TokenStream.holds_last
      (P := fun s : MeteredStream => s.symbols.Follows known ∧ Remarks known all s) ?_
      (TokenStream.converse_take conversed (i + 1)) ⟨follows, h⟩
    rintro s s' request reply mem ⟨follows, remarks⟩ answered
    refine ⟨TokenStream.follows_answer follows answered, remarks.answer follows ?_ answered⟩
    rintro rfl
    exact absurd mem open'
  have ended : (s.lastOf (turns.take (i + 1))).atEnd = true := by
    rw [s.lastOf_take_succ turn told]
    exact TokenStream.atEnd_of_isLast answered last
  have settled : (s.lastOf turns).symbols.Follows known ∧ (s.lastOf turns).atEnd = true ∧
      Remarks known all (s.lastOf turns) := by
    obtain ⟨hi, -⟩ := List.getElem?_eq_some_iff.mp told
    rw [← turns.take_length]
    apply TokenStream.holds_from
      (P := fun s : MeteredStream => s.symbols.Follows known ∧ s.atEnd = true ∧ Remarks known all s)
      ?_ conversed hi ⟨drained.1, ended, drained.2⟩
    rintro s s' request reply - ⟨follows, ended, remarks⟩ answered
    exact ⟨TokenStream.follows_answer follows answered, TokenStream.atEnd_answer ended answered,
      remarks.answer follows (fun _ => ended) answered⟩
  obtain ⟨-, ended, remarks⟩ := settled
  rw [logged_close]
  exact (iff_of_atEnd ended).mp remarks

end

theorem remarks_stream {table : SymbolTable} {opened : MeteredStream} {bytes : List UInt8}
    {text : String} (h : input.stream table = .ok opened)
    (source : input.source? = .ok (.reader (.ofBytes bytes)))
    (decoded : Text.decode? bytes = some text) :
    Remarks Kind.ofSpelling? (Text.commentLines text) opened := by
  have glyphs : input.glyphs = Text.placed .first text.toList := by
    rw [← (LineReader.glyphs_ofString text).1, ← LineReader.ofBytes_of_decode? decoded, Input.glyphs,
      source]
    apply And.left
    apply CharSource.glyphs_of_reads (fun source r => source = Source.reader r) ?_ rfl
    rintro source r rfl
    exact ⟨rfl, rfl⟩
  obtain ⟨-, -, tells⟩ := opened_tells h
  rw [Remarks, tells.comments, Input.pending_stream h, glyphs, ← Text.comments_eq]
  rfl

/-- A log has one event for each token handed out and one for each diagnostic recorded, in their
order, and ends with the release of the source. -/
theorem run_logs {table : SymbolTable} {opened : MeteredStream}
    {requests : List TokenStream.Request} {scan : Scan} (hopened : input.stream table = .ok opened)
    (h : run opened requests = .ok scan) :
    let log := scan.dropped.log.toList
    let moment (n : Nat) := (scan.upTo n).last
    (logged "scanned token" log).map LogEvent.written = scan.tokens.map (fun t =>
        (.trace, "scanned token", [("token", t.describe), ("kind", t.kind.name)])) ∧
      (log.filter LogEvent.isAlarm).map LogEvent.written =
        (opened.account requests scan.turns).map Diagnostic.written ∧
      (∃ n ≤ scan.turns.length, (∀ m < n, (moment m).released = false) ∧
        (n < scan.turns.length → (moment n).released = true) ∧
        ∃ earlier, log = earlier ++ input.parting scan.dropped.source.source.lines ++
            [.releasedSource (moment n).diagnostics.size] ∧
          ∀ e ∈ earlier, e.isParting = false) ∧
      ∀ bytes text i turn, input.source? = .ok (.reader (.ofBytes bytes)) →
        Text.decode? bytes = some text → table.Scanned → scan.turns[i]? = some turn →
        turn.1.isLast = true → .close ∉ requests.take i →
        (logged "skipping comment" log).map LogEvent.written = (Text.commentLines text).map fun line =>
          (.trace, "skipping comment", [("line", toString line)]) := by
  intro log moment
  obtain ⟨turns, conversed, rfl⟩ := ok_of_map h
  obtain ⟨released, parts, tells⟩ := opened_tells hopened
  have held : Held input [] [] opened := ⟨released, parts, [], tells⟩
  obtain ⟨n, le, before, after, gone⟩ := held.converse conversed
  obtain ⟨told, alarms⟩ := gone.told_whole
  refine ⟨?_, ?_, ⟨n, le, before, after, ?_⟩, ?_⟩
  · change (logged _ (opened.lastOf turns).close.log.toList).map _ = _
    rw [told, List.map_map]
    rfl
  · rw [TokenStream.diagnostics_close] at alarms
    exact alarms
  · obtain ⟨events, comments, ends, tells⟩ := gone.told
    exact ⟨events, ends, tells.onward⟩
  · intro bytes text i turn source decoded scanned drained last never
    have remarks := remarks_stream hopened source decoded
    have follows : opened.symbols.Follows Kind.ofSpelling? := by
      rw [Input.symbols_stream hopened]
      exact scanned.follows
    have comments := remarks.drained follows conversed drained last never
    change (logged _ (opened.lastOf turns).close.log.toList).map _ = _
    rw [comments, List.map_map]
    rfl

/-- A token and a comment on one line, and a lonely dot on the next. The diagnostics are taken after
the stream let go of its source. -/
theorem run_logs_comment :
    let bytes := Text.encode ['a', ' ', '/', '/', '\n', '.']
    ∃ opened scan, (Input.bytes bytes).stream .standard = .ok opened ∧
      run opened [.rest, .takeDiagnostics] = .ok scan ∧
      (logged "scanned token" scan.dropped.log.toList).map LogEvent.written =
        [(.trace, "scanned token",
          [("token", "a  left: 0 right: 0 line: 1"), ("kind", "Identifier")])] ∧
      (scan.dropped.log.toList.filter LogEvent.isAlarm).map LogEvent.written =
        [(.warn, "illegal character: . (no digits after leading dot)",
          [("line", "2"), ("column", "0")])] ∧
      (logged "skipping comment" scan.dropped.log.toList).map LogEvent.written =
        [(.trace, "skipping comment", [("line", "1")])] := by
  intro bytes
  obtain ⟨opened, hopened⟩ : ∃ opened, (Input.bytes bytes).stream .standard = .ok opened := ⟨_, rfl⟩
  have told : (run opened [.rest, .takeDiagnostics]).map (fun scan =>
      (scan.tokens, opened.account [.rest, .takeDiagnostics] scan.turns,
        scan.turns[0]?.map fun turn => turn.1.isLast)) =
      .ok ([⟨⟨51, "a", .identifier⟩, 1, 0, 0⟩], [⟨.malformedLeadingDotLiteral ".", 2, 0⟩],
        some true) := by
    cases hopened
    decide +kernel
  obtain ⟨scan, ran, results⟩ := ok_of_map told
  simp only [Prod.mk.injEq] at results
  obtain ⟨tokens, account, first⟩ := results
  obtain ⟨turn, here, last⟩ := Option.map_eq_some_iff.mp first
  obtain ⟨logs, alarms, -, comments⟩ := run_logs hopened ran
  refine ⟨opened, scan, hopened, ran, ?_, ?_, ?_⟩
  · rw [logs, tokens]
    decide +kernel
  · rw [alarms, account]
    decide +kernel
  · rw [comments bytes _ 0 turn rfl (Text.decode?_encode _) .standard here last nofun]
    decide +kernel

end Scan
end Lexis
