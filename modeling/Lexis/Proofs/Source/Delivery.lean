import Lexis.Proofs.Source.Glyphs
import Lexis.Proofs.Text.Encoding
import Lexis.Proofs.Text.Placement
import Lexis.Source.Requests
import Mathlib.Data.List.TakeWhile

/-! What a line reader delivers, for reads and closings in any order. -/

namespace Lexis

namespace Outcome

/-- Where a source stands after an outcome. Only a character moves it. -/
def settle (before : Position) : Outcome → Position
  | .char g => g.position
  | .endOfInput | .failure _ => before

/-- Where a source stands after the outcomes of its reads. -/
def lastPlace (outcomes : List Outcome) : Position := outcomes.foldl settle .start

def isOn (line : Nat) : Outcome → Bool
  | .char g => g.position.line == line
  | .endOfInput | .failure _ => false

/-- What so many reads give when these outcomes are due, and then nothing but the end of input. -/
def padded (due : List Outcome) (n : Nat) : List Outcome :=
  (due ++ List.replicate n Outcome.endOfInput).take n

@[simp] theorem padded_zero (due : List Outcome) : padded due 0 = [] := rfl

theorem padded_succ (due : List Outcome) (n : Nat) :
    padded due (n + 1) = due.headD .endOfInput :: padded due.tail n := by
  cases due with
  | nil => simp [padded, List.replicate_succ]
  | cons o due =>
      have shorter : n ≤ (due ++ List.replicate n Outcome.endOfInput).length := by simp
      simp only [padded, List.cons_append, List.take_succ_cons, List.headD_cons, List.tail_cons]
      rw [List.replicate_succ', ← List.append_assoc, List.take_append_of_le_length shorter]

theorem foldl_settle_padded (due : List Outcome) (n : Nat) (p : Position) :
    (padded due n).foldl settle p = (due.take n).foldl settle p := by
  induction n generalizing due p with
  | zero => rfl
  | succ n ih =>
      rw [padded_succ, List.foldl_cons, ih]
      cases due with
      | nil => simp [settle]
      | cons o due => rfl

/-- The characters due next on the line that is being delivered after so many reads. -/
def lineRest (due : List Outcome) (n : Nat) : List Outcome :=
  (due.drop n).takeWhile (isOn (lastPlace (due.take n)).line)

end Outcome

namespace LineReader

def decodes (line : List UInt8) : Bool := (Text.decode? line).isSome

/-- What a line comes to: its characters with their columns, or one failure. -/
def lineOutcomes (number : Nat) (line : List UInt8) : List Outcome :=
  match Text.decode? line with
  | none => [.failure .notUtf8]
  | some text => text.toList.mapIdx fun column c => .char ⟨c, number, column⟩

/-- What the lines of a byte sequence come to. Each is numbered by the lines up to it that can be
decoded. -/
def delivery (bytes : List UInt8) : List (List Outcome) :=
  (Text.byteLines bytes).mapIdx fun i line =>
    lineOutcomes (((Text.byteLines bytes).take (i + 1)).countP decodes) line

def Reply.outcome? : Reply → Option Outcome
  | .outcome o => some o
  | .done | .run _ _ => none

def given (turns : List (Reply × LineReader)) : List Outcome :=
  turns.filterMap fun turn => turn.1.outcome?

def after (r : LineReader) (calls : List Request) : LineReader :=
  ((r.converse calls).getLast?.map (·.2)).getD r

def place (r : LineReader) : Position := ⟨r.line, r.column⟩

theorem after_cons (r : LineReader) (call : Request) (calls : List Request) :
    r.after (call :: calls) = (r.answer call).2.after calls := by
  simp only [after, converse, List.getLast?_cons, Option.map_some, Option.getD_some]
  cases ((r.answer call).2.converse calls).getLast? <;> rfl

theorem converse_append (r : LineReader) (calls more : List Request) :
    r.converse (calls ++ more) = r.converse calls ++ (r.after calls).converse more := by
  induction calls generalizing r with
  | nil => rfl
  | cons call calls ih => rw [List.cons_append, converse, ih, after_cons]; rfl

theorem after_append (r : LineReader) (calls more : List Request) :
    r.after (calls ++ more) = (r.after calls).after more := by
  induction calls generalizing r with
  | nil => rfl
  | cons call calls ih => rw [List.cons_append, after_cons, ih, after_cons]

theorem given_append (turns more : List (Reply × LineReader)) :
    given (turns ++ more) = given turns ++ given more := List.filterMap_append

/-- What the reads of an open reader give from fetched lines that are still unread. -/
def deliver : Nat → List Line → List Outcome
  | _, [] => []
  | n, .undecodable :: unread => .failure .notUtf8 :: deliver n unread
  | n, .text chars :: unread => (glyphs (n + 1) chars).map .char ++ deliver (n + 1) unread

/-- A reader whose feed gives `fed` once the buffer is used up. All of the buffer is on the current
line. -/
structure Holds (r : LineReader) (fed due : List Outcome) : Prop where
  due_eq : due = r.buffer.map .char ++ fed
  current : ∀ g ∈ r.buffer, g.position.line = r.line

/-- An open reader from which outcomes are still due. No line to come is empty. -/
def Awaits (r : LineReader) (due : List Outcome) : Prop :=
  ∃ unread, r.feed = .lines unread ∧ (∀ line ∈ unread, line ≠ .text []) ∧
    r.Holds (deliver r.line unread) due

/-- A closed reader that can still give the rest of a line. -/
def Drains (r : LineReader) (due : List Outcome) : Prop :=
  r.feed = .closed ∧ r.Holds [] due

/-- A read gives the first of the outcomes that are due, and leaves the others due. -/
def Served (P : LineReader → List Outcome → Prop) (r : LineReader) (due : List Outcome) : Prop :=
  r.read.1 = due.headD .endOfInput ∧ P r.read.2 due.tail ∧ r.read.2.place = r.read.1.settle r.place

theorem Drains.served {r : LineReader} {due : List Outcome} (h : r.Drains due) :
    Served Drains r due := by
  obtain ⟨feed, buffer, line, column⟩ := r
  obtain ⟨rfl, rfl, hcurrent⟩ := h
  cases buffer with
  | nil => exact ⟨rfl, ⟨rfl, rfl, hcurrent⟩, rfl⟩
  | cons g buffer =>
      obtain ⟨hg, hbuffer⟩ := List.forall_mem_cons.mp hcurrent
      refine ⟨rfl, ⟨rfl, rfl, hbuffer⟩, ?_⟩
      exact congrArg (Position.mk · g.position.column) hg.symm

theorem line_of_mem_glyphs {n : Nat} {chars : List Char} {g : Glyph} (h : g ∈ glyphs n chars) :
    g.position.line = n := by
  obtain ⟨i, hi, rfl⟩ := List.mem_mapIdx.mp h
  rfl

theorem glyphs_cons (n : Nat) (c : Char) (chars : List Char) :
    glyphs n (c :: chars) = ⟨c, n, 0⟩ :: (glyphs n (c :: chars)).tail := by
  simp only [glyphs, List.mapIdx_cons, List.tail_cons]

theorem read_text (line column : Nat) (c : Char) (chars : List Char) (unread : List Line) :
    LineReader.read { feed := .lines (.text (c :: chars) :: unread), line, column } =
      (.char ⟨c, line + 1, 0⟩,
        { feed := .lines unread, buffer := (glyphs (line + 1) (c :: chars)).tail, line := line + 1,
          column := 0 }) := by
  simp only [read, fetch]
  rw [glyphs_cons]
  rfl

theorem Awaits.served {r : LineReader} {due : List Outcome} (h : r.Awaits due) :
    Served Awaits r due := by
  obtain ⟨feed, buffer, line, column⟩ := r
  obtain ⟨unread, rfl, hfull, rfl, hcurrent⟩ := h
  cases buffer with
  | cons g buffer =>
      obtain ⟨hg, hbuffer⟩ := List.forall_mem_cons.mp hcurrent
      refine ⟨rfl, ⟨unread, rfl, hfull, rfl, hbuffer⟩, ?_⟩
      exact congrArg (Position.mk · g.position.column) hg.symm
  | nil =>
      cases unread with
      | nil => exact ⟨rfl, ⟨[], rfl, hfull, rfl, hcurrent⟩, rfl⟩
      | cons first unread =>
          obtain ⟨hfirst, hunread⟩ := List.forall_mem_cons.mp hfull
          cases first with
          | undecodable => exact ⟨rfl, ⟨unread, rfl, hunread, rfl, hcurrent⟩, rfl⟩
          | text chars =>
              cases chars with
              | nil => exact absurd rfl hfirst
              | cons c chars =>
                  rw [Served, read_text, deliver, glyphs_cons]
                  refine ⟨rfl, ⟨unread, rfl, hunread, rfl, ?_⟩, rfl⟩
                  intro g hg
                  exact line_of_mem_glyphs (List.mem_of_mem_tail hg)

theorem Awaits.close {r : LineReader} {due : List Outcome} (h : r.Awaits due) :
    r.close.Drains (due.takeWhile (Outcome.isOn r.line)) := by
  obtain ⟨unread, -, hfull, rfl, hcurrent⟩ := h
  refine ⟨rfl, ?_, hcurrent⟩
  have buffered : ∀ o ∈ r.buffer.map Outcome.char, o.isOn r.line = true := by
    simpa [Outcome.isOn] using hcurrent
  rw [List.takeWhile_append_of_pos buffered, List.append_nil]
  have later : (deliver r.line unread).takeWhile (Outcome.isOn r.line) = [] := by
    cases unread with
    | nil => rfl
    | cons first unread =>
        cases first with
        | undecodable => rfl
        | text chars =>
            cases chars with
            | nil => exact absurd rfl (hfull _ List.mem_cons_self)
            | cons c chars =>
                rw [deliver, glyphs_cons]
                apply List.takeWhile_cons_of_neg
                simp [Outcome.isOn]
  rw [later, List.append_nil]
  rfl

theorem Drains.close {r : LineReader} {due : List Outcome} (h : r.Drains due) : r.close = r := by
  obtain ⟨feed, buffer, line, column⟩ := r
  obtain ⟨rfl, -⟩ := h
  rfl

/-- Reads give what is due one by one, as long as nobody closes the reader or closing it changes
nothing. -/
theorem Served.run {P : LineReader → List Outcome → Prop}
    (served : ∀ {r due}, P r due → Served P r due) {calls : List Request}
    (single : .readRun ∉ calls) (idle : .close ∈ calls → ∀ {r due}, P r due → r.close = r)
    {r : LineReader} {due : List Outcome} (h : P r due) :
    given (r.converse calls) = Outcome.padded due (calls.count .read) ∧
      P (r.after calls) (due.drop (calls.count .read)) ∧
      (r.after calls).place = (given (r.converse calls)).foldl Outcome.settle r.place := by
  -- Only a read takes from what is due: looking on does not, and closing is idle here.
  induction calls generalizing r due with
  | nil => exact ⟨rfl, h, rfl⟩
  | cons call calls ih =>
      rw [List.mem_cons, not_or] at single
      have ih' := @ih single.2 (fun later => idle (List.mem_cons_of_mem _ later))
      have step : given (r.converse (call :: calls)) =
          (r.answer call).1.outcome?.toList ++ given ((r.answer call).2.converse calls) := by
        rw [converse, given, List.filterMap_cons]
        cases (r.answer call).1.outcome? <;> rfl
      rw [after_cons, step]
      cases call with
      | readRun => exact absurd rfl single.1
      | observe =>
          rw [List.count_cons_of_ne (by decide)]
          exact ih' h
      | close =>
          have same : (r.answer .close).2 = r := idle List.mem_cons_self h
          rw [same, List.count_cons_of_ne (by decide)]
          exact ih' h
      | read =>
          obtain ⟨hgiven, hdue, hplace⟩ := served h
          obtain ⟨igiven, idue, iplace⟩ := ih' hdue
          change [r.read.1] ++ given (r.read.2.converse calls) = _ ∧ _
          rw [List.count_cons_self, Outcome.padded_succ, ← hgiven, ← igiven, ← List.drop_tail]
          refine ⟨rfl, idue, iplace.trans ?_⟩
          rw [hplace]
          rfl

theorem lineOutcomes_append_deliver (n : Nat) (line : List UInt8) (unread : List Line) :
    deliver n (Line.ofBytes line :: unread) =
      lineOutcomes (n + [line].countP decodes) line ++
        deliver (n + [line].countP decodes) unread := by
  cases h : Text.decode? line with
  | none => simp [Line.ofBytes, h, deliver, lineOutcomes, decodes]
  | some text =>
      simp [Line.ofBytes, h, deliver, lineOutcomes, decodes, glyphs, List.mapIdx_eq_zipIdx_map]

theorem flatten_mapIdx_eq_deliver (n : Nat) (lines : List (List UInt8)) :
    (lines.mapIdx fun i line =>
      lineOutcomes (n + (lines.take (i + 1)).countP decodes) line).flatten =
      deliver n (lines.map Line.ofBytes) := by
  induction lines generalizing n with
  | nil => rfl
  | cons line lines ih =>
      rw [List.map_cons, lineOutcomes_append_deliver, ← ih, List.mapIdx_cons, List.flatten_cons]
      simp only [List.take_succ_cons, List.take_zero, List.countP_cons (l := List.take _ _),
        List.countP_singleton]
      congr 3
      funext i line'
      congr 1
      omega

theorem delivery_eq_deliver (bytes : List UInt8) :
    (delivery bytes).flatten = deliver 0 ((Text.byteLines bytes).map Line.ofBytes) := by
  have numbered := flatten_mapIdx_eq_deliver 0 (Text.byteLines bytes)
  simp only [Nat.zero_add] at numbered
  exact numbered

theorem ofBytes_ne_empty {line : List UInt8} (h : line ≠ []) : Line.ofBytes line ≠ .text [] := by
  rw [Line.ofBytes]
  split
  next text heq =>
    intro same
    rw [Line.text.injEq] at same
    exact h (by rw [Text.eq_encode_of_decode? heq, same]; rfl)
  next => simp

theorem awaits_ofBytes (bytes : List UInt8) : (ofBytes bytes).Awaits (delivery bytes).flatten := by
  refine ⟨_, rfl, ?_, ?_, ?_⟩
  · intro line hline
    obtain ⟨piece, hpiece, rfl⟩ := List.mem_map.mp hline
    exact ofBytes_ne_empty (Text.isPiece_of_mem_cutAfter hpiece).ne_nil
  · exact delivery_eq_deliver bytes
  · intro g hg
    cases hg

theorem glyphs_of_awaits {r : LineReader} {gs : List Glyph} {rest : List Outcome}
    (h : r.Awaits (gs.map .char ++ rest)) (hrest : ∀ g, rest.headD .endOfInput ≠ .char g) :
    CharSource.glyphs r = gs ∧ CharSource.stop r = rest.headD .endOfInput := by
  induction gs generalizing r with
  | nil =>
      obtain ⟨hread, -⟩ := h.served
      have given : CharSource.read r = (rest.headD .endOfInput, r.read.2) := Prod.ext hread rfl
      exact ⟨CharSource.glyphs_of_stop hrest given, CharSource.stop_of_stop hrest given⟩
  | cons g gs ih =>
      obtain ⟨hread, hdue, -⟩ := h.served
      have given : CharSource.read r = (.char g, r.read.2) := Prod.ext hread rfl
      obtain ⟨hglyphs, hstop⟩ := ih hdue
      rw [CharSource.glyphs_of_char given, CharSource.stop_of_char given, hglyphs]
      exact ⟨rfl, hstop⟩

theorem deliver_text (n : Nat) {lines : List (List Char)}
    (h : ∀ line ∈ lines, Text.IsPiece (· == '\n') line) :
    deliver n (lines.map .text) = (Text.placedLines ⟨n + 1, 0⟩ lines).map .char := by
  induction lines generalizing n with
  | nil => rfl
  | cons line lines ih =>
      obtain ⟨hline, hlines⟩ := List.forall_mem_cons.mp h
      rw [List.map_cons, deliver, ih (n + 1) hlines, Text.placedLines, List.map_append,
        Text.placed_eq_mapIdx hline]
      simp only [glyphs, Nat.zero_add]

theorem deliver_encode (cs : List Char) :
    deliver 0 ((Text.byteLines (Text.encode cs)).map Line.ofBytes) =
      (Text.placed .first cs).map .char := by
  have decoded : Line.ofBytes ∘ Text.encode = Line.text := by
    funext line
    simp only [Function.comp, Line.ofBytes, Text.decode?_encode, String.toList_ofList]
  rw [Text.byteLines_encode, List.map_map, decoded,
    deliver_text 0 (fun line => Text.isPiece_of_mem_cutAfter), Text.placedLines_cutAfter]
  rfl

theorem awaits_ofString (text : String) :
    (ofString text).Awaits ((Text.placed .first text.toList).map .char) := by
  have h := awaits_ofBytes (Text.encode text.toList)
  rw [delivery_eq_deliver, deliver_encode] at h
  rw [ofString, Text.toByteArray_toList]
  exact h

theorem ofBytes_of_decode? {bytes : List UInt8} {text : String}
    (h : Text.decode? bytes = some text) : ofBytes bytes = ofString text := by
  rw [ofString, Text.toByteArray_toList, ← Text.eq_encode_of_decode? h]

/-- A text is delivered as a whole, each character with its place, and then the input ends. -/
theorem glyphs_ofString (text : String) :
    CharSource.glyphs (ofString text) = Text.placed .first text.toList ∧
      CharSource.stop (ofString text) = .endOfInput := by
  have waits := awaits_ofString text
  rw [← List.append_nil ((Text.placed .first text.toList).map Outcome.char)] at waits
  exact glyphs_of_awaits waits (by simp)

theorem Awaits.isClosed {r : LineReader} {due : List Outcome} (h : r.Awaits due) :
    r.isClosed = false := by
  obtain ⟨unread, hfeed, -⟩ := h
  rw [LineReader.isClosed, hfeed]
  rfl

theorem Drains.isClosed {r : LineReader} {due : List Outcome} (h : r.Drains due) :
    r.isClosed = true := by
  rw [LineReader.isClosed, h.1]
  rfl

/-- Requests up to the first closing. -/
def whileOpen (calls : List Request) : List Request := calls.takeWhile (· != .close)

/-- Requests from the first closing on. -/
def onceClosed (calls : List Request) : List Request := calls.dropWhile (· != .close)

theorem ne_close_of_notMem {opened : List Request} (h : .close ∉ opened) :
    ∀ call ∈ opened, (call != .close) = true := by
  intro call hcall
  rw [bne_iff_ne]
  rintro rfl
  exact h hcall

theorem whileOpen_of_notMem {calls : List Request} (h : .close ∉ calls) :
    whileOpen calls = calls ∧ onceClosed calls = [] := by
  have none := ne_close_of_notMem h
  exact ⟨List.takeWhile_eq_self_iff.mpr none, List.dropWhile_eq_nil_iff.mpr none⟩

theorem whileOpen_append_close {opened : List Request} (h : .close ∉ opened)
    (later : List Request) :
    whileOpen (opened ++ .close :: later) = opened ∧
      onceClosed (opened ++ .close :: later) = .close :: later := by
  have none := ne_close_of_notMem h
  constructor
  · rw [whileOpen, List.takeWhile_append_of_pos none, List.takeWhile_cons_of_neg (by decide),
      List.append_nil]
  · rw [onceClosed, List.dropWhile_append_of_pos none, List.dropWhile_cons_of_neg (by decide)]

theorem readRun_ofString (text : String) :
    (CharSource.readRun "" (ofString text)).1 = text ∧
      (CharSource.readRun "" (ofString text)).2.1 = .endOfInput := by
  obtain ⟨hrun, hstop⟩ := CharSource.readRun_eq "" (ofString text)
  obtain ⟨hglyphs, hend⟩ := glyphs_ofString text
  rw [hrun, hstop, hglyphs, hend, Text.map_char_placed, String.ofList_toList]
  exact ⟨String.empty_append, rfl⟩

/-- As long as nobody closes the reader, reads give what the lines come to. -/
theorem converse_open (bytes : List UInt8) {calls : List Request} (single : .readRun ∉ calls)
    (never : .close ∉ calls) :
    let due := (delivery bytes).flatten
    let r := (ofBytes bytes).after calls
    given ((ofBytes bytes).converse calls) = Outcome.padded due (calls.count .read) ∧
      r.place = Outcome.lastPlace (due.take (calls.count .read)) ∧
      r.Awaits (due.drop (calls.count .read)) := by
  obtain ⟨hgiven, hdue, hplace⟩ := Served.run Awaits.served single
    (fun h => absurd h never) (awaits_ofBytes bytes)
  rw [hgiven, Outcome.foldl_settle_padded] at hplace
  exact ⟨hgiven, hplace, hdue⟩

/-- Once somebody closes the reader, reads give what is left of its line. -/
theorem converse_closed (bytes : List UInt8) {opened later : List Request}
    (before : .readRun ∉ opened) (open' : .close ∉ opened) (single : .readRun ∉ later) :
    let due := (delivery bytes).flatten
    let reads := opened.count .read
    let turns := (ofBytes bytes).converse (opened ++ .close :: later)
    let r := (ofBytes bytes).after (opened ++ .close :: later)
    given turns = Outcome.padded due reads ++
        Outcome.padded (Outcome.lineRest due reads) (later.count .read) ∧
      r.place = Outcome.lastPlace (given turns) ∧
      r.Drains ((Outcome.lineRest due reads).drop (later.count .read)) := by
  intro due reads turns r
  obtain ⟨ogiven, oplace, odue⟩ := converse_open bytes before open'
  obtain ⟨lgiven, ldue, lplace⟩ := Served.run Drains.served single (fun _ => Drains.close) odue.close
  have line : ((ofBytes bytes).after opened).line = (Outcome.lastPlace (due.take reads)).line :=
    congrArg Position.line oplace
  rw [line] at lgiven ldue
  have hr : r = ((ofBytes bytes).after opened).close.after later := by
    change (ofBytes bytes).after (opened ++ .close :: later) = _
    rw [after_append, after_cons]
    rfl
  have hgiven : given turns = given ((ofBytes bytes).converse opened) ++
      given (((ofBytes bytes).after opened).close.converse later) := by
    change given ((ofBytes bytes).converse (opened ++ .close :: later)) = _
    rw [converse_append, given_append]
    rfl
  rw [hr, hgiven]
  refine ⟨by rw [ogiven, lgiven]; rfl, ?_, ldue⟩
  rw [lplace, Outcome.lastPlace, List.foldl_append, ogiven, Outcome.foldl_settle_padded]
  exact congrArg (List.foldl Outcome.settle · _) oplace

/-- Before the first closing, reads give what the lines come to; after it, what is left of the
current line. The reader stands at the character it gave last. -/
theorem converse_ofBytes (bytes : List UInt8) (calls : List Request) (single : .readRun ∉ calls) :
    let due := (delivery bytes).flatten
    let reads := (whileOpen calls).count .read
    let late := (onceClosed calls).count .read
    let turns := (ofBytes bytes).converse calls
    let r := (ofBytes bytes).after calls
    given turns = Outcome.padded due reads ++ Outcome.padded (Outcome.lineRest due reads) late ∧
      r.place = Outcome.lastPlace (given turns) ∧
      (r.isClosed = true ↔ .close ∈ calls) ∧ (.close ∈ calls → r.close = r) ∧
      Failure.notUtf8.message = "stream did not contain valid UTF-8" ∧
      ∀ text : String, (CharSource.readRun "" (ofString text)).1 = text ∧
        (CharSource.readRun "" (ofString text)).2.1 = .endOfInput := by
  intro due reads late turns r
  by_cases hclose : .close ∈ calls
  · obtain ⟨opened, later, rfl, hopened⟩ := List.eq_append_cons_of_mem hclose
    obtain ⟨hwhile, honce⟩ := whileOpen_append_close hopened later
    rw [List.mem_append, List.mem_cons, not_or, not_or] at single
    obtain ⟨hgiven, hplace, hdue⟩ := converse_closed bytes single.1 hopened single.2.2
    have hreads : reads = opened.count .read := congrArg (List.count _) hwhile
    have hlate : late = later.count .read := by
      rw [← List.count_cons_of_ne (show Request.close ≠ .read by decide)]
      exact congrArg (List.count _) honce
    rw [hreads, hlate]
    refine ⟨hgiven, hplace, ?_, fun _ => hdue.close, rfl, readRun_ofString⟩
    simp only [hclose, iff_true]
    exact hdue.isClosed
  · obtain ⟨hwhile, honce⟩ := whileOpen_of_notMem hclose
    obtain ⟨hgiven, hplace, hdue⟩ := converse_open bytes single hclose
    have hreads : reads = calls.count .read := congrArg (List.count _) hwhile
    have hlate : late = 0 := congrArg (List.count _) honce
    rw [hreads, hlate, Outcome.padded_zero, List.append_nil]
    refine ⟨hgiven, ?_, ?_, fun h => absurd h hclose, rfl, readRun_ofString⟩
    · change _ = Outcome.lastPlace (given ((ofBytes bytes).converse calls))
      rw [hgiven, Outcome.lastPlace, Outcome.foldl_settle_padded]
      exact hplace
    · simp only [hclose, iff_false, Bool.not_eq_true]
      exact hdue.isClosed

/-- A bad line between two good ones, and a closing in the middle of the last. -/
theorem converse_ofBytes_bad_line :
    .readRun ∉ [Request.read, .read, .read, .read, .close, .read, .read] ∧
      given ((ofBytes [0x61, 0x0a, 0xff, 0x0a, 0x62, 0x63]).converse
        [.read, .read, .read, .read, .close, .read, .read]) =
        [.char ⟨'a', 1, 0⟩, .char ⟨'\n', 1, 1⟩, .failure .notUtf8, .char ⟨'b', 2, 0⟩,
          .char ⟨'c', 2, 1⟩, .endOfInput] :=
  ⟨by decide, (converse_ofBytes _ _ (by decide)).1.trans (by decide)⟩

end LineReader
end Lexis
