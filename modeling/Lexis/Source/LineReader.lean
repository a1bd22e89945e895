import Lexis.Source.Basic
import Lexis.Text.Encoding

/-! Reading bytes a line at a time. A line that is not UTF-8 fails by itself and is not counted. -/

namespace Lexis

inductive Line where
  | text (chars : List Char)
  | undecodable
deriving DecidableEq, Repr

namespace Line

def ofBytes (bytes : List UInt8) : Line :=
  match Text.decode? bytes with
  | some decoded => .text decoded.toList
  | none => .undecodable

def size : Line → Nat
  | .text chars => chars.length
  | .undecodable => 0

end Line

/-- Where a reader takes its lines from. -/
inductive Feed where
  | lines (unread : List Line)
  /-- Every attempt to fetch a line fails alike. -/
  | failing (cause : Failure)
  | closed
deriving DecidableEq, Repr

def Feed.size : Feed → Nat
  | .lines unread => unread.foldr (fun line total => line.size + total) 0
  | .failing _ | .closed => 0

/-- A reader that fetches one line at a time. `buffer` holds what is left of it, `line` counts the
lines fetched, and `column` is that of the last character. -/
structure LineReader where
  feed : Feed
  buffer : List Glyph := []
  line : Nat := 0
  column : Nat := 0
deriving Repr

namespace LineReader

def ofBytes (bytes : List UInt8) : LineReader :=
  { feed := .lines ((Text.byteLines bytes).map Line.ofBytes) }

def ofString (text : String) : LineReader := ofBytes text.toByteArray.data.toList

/-- A directory can be opened, but not read. -/
def ofDirectory : LineReader := { feed := .failing .isADirectory }

def isClosed (r : LineReader) : Bool := r.feed == .closed

def glyphs (line : Nat) (chars : List Char) : List Glyph :=
  chars.mapIdx fun column c => ⟨c, line, column⟩

/-- Fetches lines until one has a character to deliver. -/
def fetch (line column : Nat) : List Line → Outcome × LineReader
  | [] => (.endOfInput, { feed := .lines [], line, column })
  | .undecodable :: unread => (.failure .notUtf8, { feed := .lines unread, line, column })
  | .text chars :: unread =>
    match glyphs (line + 1) chars with
    | [] => fetch (line + 1) 0 unread
    | g :: buffer => (.char g, { feed := .lines unread, buffer, line := line + 1, column := 0 })

def read (r : LineReader) : Outcome × LineReader :=
  match r.buffer, r.feed with
  | g :: buffer, _ => (.char g, { r with buffer, column := g.position.column })
  | [], .lines unread => fetch r.line r.column unread
  | [], .failing cause => (.failure cause, r)
  | [], .closed => (.endOfInput, r)

/-- A closed reader fetches no further line; the rest of the current one can still be read. -/
def close (r : LineReader) : LineReader := { r with feed := .closed }

def closingEvents (r : LineReader) : List LogEvent :=
  if r.isClosed then [] else [.closedSource r.line]

def remaining (r : LineReader) : Nat := r.buffer.length + r.feed.size

theorem remaining_fetch {line column : Nat} {unread : List Line} {g : Glyph} {r : LineReader}
    (h : fetch line column unread = (.char g, r)) : r.remaining < (Feed.lines unread).size := by
  fun_induction fetch line column unread with
  | case1 | case2 => simp at h
  | case3 line column chars unread hnil ih =>
    have later := ih h
    simp only [Feed.size, List.foldr_cons] at later ⊢
    omega
  | case4 line column chars unread g' buffer hcons =>
    have hlen := congrArg List.length hcons
    simp only [glyphs, List.length_mapIdx, List.length_cons] at hlen
    simp only [Prod.mk.injEq] at h
    rw [← h.2]
    simp only [remaining, Feed.size, List.foldr_cons, Line.size]
    omega

theorem remaining_read {r r' : LineReader} {g : Glyph} (h : r.read = (.char g, r')) :
    r'.remaining < r.remaining := by
  obtain ⟨feed, buffer, line, column⟩ := r
  cases buffer with
  | cons g' buffer =>
    simp only [read, Prod.mk.injEq] at h
    simp [← h.2, remaining]
  | nil =>
    cases feed with
    | lines unread =>
      have fetched := remaining_fetch (r := r') h
      simpa only [remaining, List.length_nil, Nat.zero_add] using fetched
    | failing cause => simp [read] at h
    | closed => simp [read] at h

instance : CharSource LineReader where
  read := read
  close := close
  closingEvents := closingEvents
  remaining := remaining
  remaining_read := remaining_read

end LineReader
end Lexis
