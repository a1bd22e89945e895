import Lexis.Proofs.Source.Delivery

/-! Where a reader stands in a text, whatever is requested of it. -/

namespace Lexis

open LineReader

namespace Outcome

theorem lastPlace_concat (outcomes : List Outcome) (o : Outcome) :
    lastPlace (outcomes ++ [o]) = o.settle (lastPlace outcomes) := by
  rw [lastPlace, List.foldl_append]
  rfl

theorem line_foldl_settle {gs : List Glyph} {n : Nat} (h : ∀ g ∈ gs, g.position.line = n)
    (ne : gs ≠ []) (p : Position) : ((gs.map .char).foldl settle p).line = n := by
  induction gs generalizing p with
  | nil => exact absurd rfl ne
  | cons g gs ih =>
      obtain ⟨here, later⟩ := List.forall_mem_cons.mp h
      cases gs with
      | nil => exact here
      | cons next gs => exact ih later (by simp) g.position

theorem line_foldl_placedLines {lines : List (List Char)}
    (pieces : ∀ line ∈ lines, Text.IsPiece (· == '\n') line) (m : Nat) {p : Position}
    (start : p.line = m) :
    (((Text.placedLines ⟨m + 1, 0⟩ lines).map .char).foldl settle p).line = m + lines.length := by
  induction lines generalizing m p with
  | nil => exact start
  | cons line lines ih =>
      obtain ⟨first, later⟩ := List.forall_mem_cons.mp pieces
      rw [Text.placedLines, List.map_append, List.foldl_append]
      have here : (((Text.placed ⟨m + 1, 0⟩ line).map .char).foldl settle p).line = m + 1 := by
        apply line_foldl_settle
        · intro g hg
          rw [Text.placed_eq_mapIdx first] at hg
          obtain ⟨i, hi, rfl⟩ := List.mem_mapIdx.mp hg
          rfl
        · rw [← List.length_pos_iff, Text.length_placed, List.length_pos_iff]
          exact first.ne_nil
      rw [ih later (m + 1) here, List.length_cons]
      omega

theorem line_lastPlace (cs : List Char) :
    (lastPlace ((Text.placed .first cs).map .char)).line =
      (Text.cutAfter (· == '\n') cs).length := by
  have pieces : ∀ line ∈ Text.cutAfter (· == '\n') cs, Text.IsPiece (· == '\n') line :=
    fun line => Text.isPiece_of_mem_cutAfter
  have whole := line_foldl_placedLines pieces 0 (p := Position.start) rfl
  rw [Nat.zero_add, Nat.zero_add] at whole
  rw [lastPlace, ← Text.placedLines_cutAfter]
  exact whole

end Outcome

namespace LineReader

variable {r : LineReader} {past coming : List Glyph}

/-- A reader has given the first characters of a text, and stands at the last of them. Open, it
still has to give the others, and closed, some of them. -/
structure StandsAt (r : LineReader) (past coming : List Glyph) : Prop where
  place : r.place = Outcome.lastPlace (past.map .char)
  due : r.Awaits (coming.map .char) ∨ ∃ n, r.Drains ((coming.take n).map .char)

theorem standsAt_ofString (text : String) :
    (ofString text).StandsAt [] (Text.placed .first text.toList) :=
  ⟨rfl, .inl (awaits_ofString text)⟩

theorem StandsAt.read (h : r.StandsAt past coming) :
    (∃ g left, coming = g :: left ∧ r.read.1 = .char g ∧ r.read.2.StandsAt (past ++ [g]) left) ∨
      r.read.1 = .endOfInput ∧ r.read.2.StandsAt past coming ∧
        (r.isClosed = false → coming = []) := by
  have moved {g : Glyph} (given : r.read.1 = .char g)
      (settled : r.read.2.place = r.read.1.settle r.place) :
      r.read.2.place = Outcome.lastPlace ((past ++ [g]).map .char) := by
    rw [settled, given, List.map_append, List.map_singleton, Outcome.lastPlace_concat]
    rfl
  have stayed (given : r.read.1 = .endOfInput)
      (settled : r.read.2.place = r.read.1.settle r.place) :
      r.read.2.place = Outcome.lastPlace (past.map .char) := by
    rw [settled, given]
    exact h.place
  rcases h.due with waits | ⟨n, drains⟩
  · obtain ⟨given, later, settled⟩ := waits.served
    cases coming with
    | nil => exact .inr ⟨given, ⟨stayed given settled, .inl later⟩, fun _ => rfl⟩
    | cons g left => exact .inl ⟨g, left, rfl, given, moved given settled, .inl later⟩
  · obtain ⟨given, later, settled⟩ := drains.served
    cases due : coming.take n with
    | nil =>
        rw [due] at given later
        refine .inr ⟨given, ⟨stayed given settled, .inr ⟨0, later⟩⟩, ?_⟩
        intro opened
        cases opened.symm.trans drains.isClosed
    | cons g rest =>
        rw [due] at given later
        cases coming with
        | nil => simp at due
        | cons g' left =>
            cases n with
            | zero => cases due
            | succ n =>
                cases due
                exact .inl ⟨g, left, rfl, given, moved given settled, .inr ⟨n, later⟩⟩

theorem StandsAt.close (h : r.StandsAt past coming) : r.close.StandsAt past coming := by
  refine ⟨h.place, .inr ?_⟩
  rcases h.due with waits | ⟨n, drains⟩
  · have front := List.takeWhile_prefix (Outcome.isOn r.line) (l := coming.map Outcome.char)
    refine ⟨((coming.map Outcome.char).takeWhile (Outcome.isOn r.line)).length, ?_⟩
    rw [List.map_take, ← List.prefix_iff_eq_take.mp front]
    exact waits.close
  · refine ⟨n, ?_⟩
    rw [drains.close]
    exact drains

/-- The reader went on over some of the characters that were to come. -/
def Advanced (r : LineReader) (past coming : List Glyph) : Prop :=
  ∃ passed left, coming = passed ++ left ∧ r.StandsAt (past ++ passed) left

theorem StandsAt.advanced (h : r.StandsAt past coming) : r.Advanced past coming :=
  ⟨[], coming, rfl, by rwa [List.append_nil]⟩

theorem StandsAt.advanced_read (h : r.StandsAt past coming) : r.read.2.Advanced past coming := by
  rcases h.read with ⟨g, left, rfl, -, stands⟩ | ⟨-, stands, -⟩
  · exact ⟨[g], left, rfl, stands⟩
  · exact stands.advanced

theorem Advanced.trans {r' : LineReader} (h : r.Advanced past coming)
    (next : ∀ {past coming}, r.StandsAt past coming → r'.Advanced past coming) :
    r'.Advanced past coming := by
  obtain ⟨passed, left, rfl, stands⟩ := h
  obtain ⟨passed', left', rfl, stands'⟩ := next stands
  refine ⟨passed ++ passed', left', by rw [List.append_assoc], ?_⟩
  rwa [← List.append_assoc]

theorem StandsAt.answer (h : r.StandsAt past coming) (call : Request) :
    (r.answer call).2.Advanced past coming := by
  cases call with
  | read => exact h.advanced_read
  | readRun =>
      apply CharSource.readRun_keeps (P := fun r' : LineReader => r'.Advanced past coming) ?_ ""
        h.advanced
      intro r' moved
      exact moved.trans StandsAt.advanced_read
  | close => exact h.close.advanced
  | observe => exact h.advanced

/-- Whatever is requested, a reader goes forward in its text. -/
theorem StandsAt.after (h : r.StandsAt past coming) (calls : List Request) :
    (r.after calls).Advanced past coming := by
  induction calls generalizing r past coming with
  | nil => exact h.advanced
  | cons call calls ih =>
      rw [after_cons]
      exact (h.answer call).trans ih

theorem isClosed_fetch (line column : Nat) (unread : List Line) :
    (fetch line column unread).2.isClosed = false := by
  fun_induction fetch line column unread with
  | case1 => rfl
  | case2 => rfl
  | case3 line column chars unread _ ih => exact ih
  | case4 => rfl

theorem isClosed_read (r : LineReader) : r.read.2.isClosed = r.isClosed := by
  obtain ⟨feed, buffer, line, column⟩ := r
  cases buffer with
  | cons g buffer => rfl
  | nil =>
      cases feed with
      | lines unread => exact isClosed_fetch line column unread
      | failing cause => rfl
      | closed => rfl

theorem isClosed_after {calls : List Request} (never : .close ∉ calls) (r : LineReader) :
    (r.after calls).isClosed = r.isClosed := by
  induction calls generalizing r with
  | nil => rfl
  | cons call calls ih =>
      obtain ⟨here, later⟩ := not_or.mp (mt List.mem_cons.mpr never)
      rw [after_cons, ih later]
      cases call with
      | read => exact isClosed_read r
      | readRun =>
          apply CharSource.readRun_keeps (P := fun r' : LineReader => r'.isClosed = r.isClosed) ?_
            "" rfl
          intro r' same
          exact (isClosed_read r').trans same
      | close => exact absurd rfl here
      | observe => rfl

end LineReader
end Lexis
