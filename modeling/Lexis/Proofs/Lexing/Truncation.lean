import Lexis.Proofs.Lexing.Extent
import Lexis.Proofs.TokenStream.Lookahead

/-! Bytes with a line that cannot be decoded come to what the lines before it come to, and one
diagnostic more. -/

namespace Lexis

/-! Up to the bad line. -/

namespace LineReader

/-- The lines before the first that cannot be decoded. -/
def readable (bytes : List UInt8) : List (List UInt8) := (Text.byteLines bytes).takeWhile decodes

/-- The lines after the first that cannot be decoded. -/
def beyond (bytes : List UInt8) : List (List UInt8) :=
  ((Text.byteLines bytes).dropWhile decodes).tail

theorem exists_encoded {lines : List (List UInt8)} (h : ∀ line ∈ lines, decodes line = true) :
    ∃ cs, lines.flatten = Text.encode cs := by
  induction lines with
  | nil => exact ⟨[], rfl⟩
  | cons line lines ih =>
      obtain ⟨here, later⟩ := List.forall_mem_cons.mp h
      obtain ⟨cs, hcs⟩ := ih later
      obtain ⟨text, decoded⟩ := Option.isSome_iff_exists.mp here
      refine ⟨text.toList ++ cs, ?_⟩
      rw [List.flatten_cons, hcs, Text.eq_encode_of_decode? decoded, Text.encode, Text.encode,
        Text.encode, List.flatMap_append]

section

variable {bytes : List UInt8} {cs : List Char}

theorem readable_eq_take (bytes : List UInt8) :
    readable bytes = (Text.byteLines bytes).take (readable bytes).length :=
  List.prefix_iff_eq_take.mp (List.takeWhile_prefix _)

theorem byteLines_readable (bytes : List UInt8) :
    Text.byteLines (readable bytes).flatten = readable bytes := by
  rw [readable_eq_take]
  exact Text.cutAfter_flatten_take bytes _

theorem deliver_append (n : Nat) {lines : List (List UInt8)}
    (h : ∀ line ∈ lines, decodes line = true) (more : List (List UInt8)) :
    deliver n ((lines ++ more).map Line.ofBytes) =
      deliver n (lines.map Line.ofBytes) ++ deliver (n + lines.length) (more.map Line.ofBytes) := by
  induction lines generalizing n with
  | nil => rfl
  | cons line lines ih =>
      obtain ⟨here, later⟩ := List.forall_mem_cons.mp h
      rw [List.cons_append, List.map_cons, List.map_cons, lineOutcomes_append_deliver,
        lineOutcomes_append_deliver, ih _ later, List.append_assoc, List.countP_singleton,
        if_pos here, List.length_cons, Nat.add_assoc, Nat.add_comm 1]

theorem decodes_of_readable {line : List UInt8} (h : line ∈ readable bytes) :
    decodes line = true := List.mem_takeWhile_imp h

theorem readable_of_all (h : ∀ line ∈ Text.byteLines bytes, decodes line = true) :
    readable bytes = Text.byteLines bytes := List.takeWhile_eq_self_iff.mpr h

theorem readable_of_bad (h : ∃ line ∈ Text.byteLines bytes, decodes line = false) :
    ∃ bad, decodes bad = false ∧ Text.byteLines bytes = readable bytes ++ bad :: beyond bytes := by
  have split := List.takeWhile_append_dropWhile (p := decodes) (l := Text.byteLines bytes)
  have head := List.head?_dropWhile_not decodes (Text.byteLines bytes)
  cases later : (Text.byteLines bytes).dropWhile decodes with
  | nil =>
      obtain ⟨line, mem, bad⟩ := h
      have all := List.dropWhile_eq_nil_iff.mp later line mem
      rw [bad] at all
      cases all
  | cons bad rest =>
      rw [later] at split head
      have same : beyond bytes = rest := by rw [beyond, later, List.tail_cons]
      rw [same]
      exact ⟨bad, by simpa using head, split.symm⟩

theorem length_le_of_readable {text : String}
    (h : Text.decode? (readable bytes).flatten = some text) : text.length ≤ bytes.length := by
  have split := congrArg List.flatten
    (List.takeWhile_append_dropWhile (p := decodes) (l := Text.byteLines bytes))
  have whole : (Text.byteLines bytes).flatten = bytes := Text.flatten_cutAfter _ bytes
  rw [List.flatten_append, whole] at split
  calc text.length
    _ = text.toList.length := String.length_toList.symm
    _ ≤ (Text.encode text.toList).length := Text.length_le_encode _
    _ = (readable bytes).flatten.length := by rw [← Text.eq_encode_of_decode? h]
    _ ≤ bytes.length := by
      conv_rhs => rw [← split, List.length_append]
      exact Nat.le_add_right _ _

theorem deliver_readable (h : (readable bytes).flatten = Text.encode cs) :
    deliver 0 ((readable bytes).map Line.ofBytes) = (Text.placed .first cs).map .char := by
  rw [← byteLines_readable, h, deliver_encode]

/-- The reader fails at a line that cannot be decoded, and goes on with the lines beyond. -/
theorem delivery_of_bad (h : (readable bytes).flatten = Text.encode cs)
    (some : ∃ line ∈ Text.byteLines bytes, decodes line = false) :
    (delivery bytes).flatten = (Text.placed .first cs).map .char ++
      .failure .notUtf8 :: deliver (readable bytes).length ((beyond bytes).map Line.ofBytes) := by
  obtain ⟨bad, undecoded, split⟩ := readable_of_bad some
  have none : Text.decode? bad = none := by simpa [decodes] using undecoded
  have failed : Line.ofBytes bad = .undecodable := by rw [Line.ofBytes, none]
  rw [delivery_eq_deliver, split, deliver_append 0 (fun _ => decodes_of_readable),
    deliver_readable h, Nat.zero_add, List.map_cons, failed, deliver]

/-- A source of bytes has the characters of the readable lines. It ends with them, or it fails. -/
theorem glyphs_ofBytes (h : (readable bytes).flatten = Text.encode cs) :
    CharSource.glyphs (ofBytes bytes) = Text.placed .first cs ∧
      ((∀ line ∈ Text.byteLines bytes, decodes line = true) →
        CharSource.stop (ofBytes bytes) = .endOfInput) ∧
      ((∃ line ∈ Text.byteLines bytes, decodes line = false) →
        CharSource.stop (ofBytes bytes) = .failure .notUtf8) := by
  have waits := awaits_ofBytes bytes
  by_cases all : ∀ line ∈ Text.byteLines bytes, decodes line = true
  · rw [delivery_eq_deliver, ← readable_of_all all, deliver_readable h, ← List.append_nil
      (List.map _ _)] at waits
    obtain ⟨glyphs, stop⟩ := glyphs_of_awaits waits (by simp)
    refine ⟨glyphs, fun _ => stop, ?_⟩
    rintro ⟨line, mem, bad⟩
    cases bad.symm.trans (all line mem)
  · have some : ∃ line ∈ Text.byteLines bytes, decodes line = false := by simpa using all
    rw [delivery_of_bad h some] at waits
    obtain ⟨glyphs, stop⟩ := glyphs_of_awaits waits (by simp)
    exact ⟨glyphs, fun none => absurd none all, fun _ => stop⟩

/-- After the reads up to the failing one, a reader would give the lines beyond. -/
theorem given_beyond (h : (readable bytes).flatten = Text.encode cs)
    (some : ∃ line ∈ Text.byteLines bytes, decodes line = false) (k : Nat) :
    given (((ofBytes bytes).after (List.replicate (cs.length + 1) .read)).converse
        (List.replicate k .read)) =
      Outcome.padded (deliver (readable bytes).length ((beyond bytes).map Line.ofBytes)) k := by
  have single (n : Nat) : .readRun ∉ List.replicate n Request.read := by simp
  have never (n : Nat) : .close ∉ List.replicate n Request.read := by simp
  obtain ⟨-, -, waits⟩ := converse_open bytes (single (cs.length + 1)) (never _)
  -- The reads up to the failing one are behind, and one reader state serves the others.
  have behind : ((Text.placed .first cs).map Outcome.char ++ [Outcome.failure .notUtf8]).length =
      cs.length + 1 := by simp
  rw [List.count_replicate_self, delivery_of_bad h some, List.append_cons, ← behind,
    List.drop_left, behind] at waits
  have later := (Served.run Awaits.served (single k) (fun asked => absurd asked (never k)) waits).1
  rwa [List.count_replicate_self] at later

theorem ended_of_bad (h : (readable bytes).flatten = Text.encode cs)
    (some : ∃ line ∈ Text.byteLines bytes, decodes line = false) :
    cs = [] ∨ ∃ before, cs = before ++ ['\n'] := by
  obtain ⟨bad, -, split⟩ := readable_of_bad some
  have more : (readable bytes).length < (Text.byteLines bytes).length := by
    rw [split, List.length_append, List.length_cons]
    omega
  have ended := Text.ends_of_take more
  change ∀ b ∈ ((Text.byteLines bytes).take _).flatten.getLast?, _ at ended
  rw [← readable_eq_take, h] at ended
  rcases List.eq_nil_or_concat cs with rfl | ⟨before, c, rfl⟩
  · exact .inl rfl
  · rw [List.concat_eq_append] at ended ⊢
    obtain rfl : c = '\n' := Text.newline_of_encode fun b last => by simpa using ended b last
    exact .inr ⟨before, rfl⟩

end

end LineReader

section

variable {known : String → Option Kind} {gs : List Glyph}

theorem recorded_concat (ending : Outcome) (ps : List Segment) (p : Segment) :
    recorded ending (ps ++ [p]) = ps.filterMap Segment.diagnostic? ++
      (endDiagnostics ending p.last.position ++ p.diagnostic?.toList) := by
  induction ps with
  | nil => simp [recorded]
  | cons q ps ih =>
      rw [List.cons_append, recorded, ih, if_neg (by simp), List.nil_append]
      cases hq : q.diagnostic? with
      | none => rw [List.filterMap_cons_none hq]; rfl
      | some d => rw [List.filterMap_cons_some hq]; rfl

theorem reports_of_concat (ending : Outcome) {ps : List Segment} {p : Segment}
    (concat : segments known gs = ps ++ [p]) :
    reports ending (segments known gs) = ps.filterMap Segment.diagnostic? ++
      (endDiagnostics ending p.last.position ++ p.diagnostic?.toList) := by
  rw [reports, concat, if_neg (by simp), recorded_concat]
  rfl

theorem Cuts.silent_of_newline {g : Glyph} {rest : List Glyph} {p : Segment}
    (h : Cuts known g gs p rest) (newline : p.last.char = '\n') : p.diagnostic? = none := by
  cases h with
  | malformed hg =>
      have dot : '.' = '\n' := hg.symm.trans newline
      cases dot
  | illegal bare =>
      have blank := bare.1
      rw [show g.char = '\n' from newline] at blank
      cases blank
  | _ => rfl

theorem reports_of_ended (ending : Outcome) (ended : ∀ g ∈ gs.getLast?, g.char = '\n') :
    reports ending (segments known gs) = (segments known gs).filterMap Segment.diagnostic? ++
      endDiagnostics ending (gs.getLast?.elim .start Glyph.position) := by
  rcases List.eq_nil_or_concat (segments known gs) with none | ⟨ps, p, concat⟩
  · rw [none, segments_eq_nil.mp none]
    simp [reports, recorded]
  · rw [List.concat_eq_append] at concat
    obtain ⟨_, _, _, cuts⟩ := cuts_of_concat concat
    have last := getLast?_of_concat concat
    have silent := cuts.silent_of_newline (ended _ last)
    rw [reports_of_concat ending concat, concat, filterMap_diagnostic?_concat, silent, last,
      Option.toList_none, List.append_nil, List.append_nil]
    rfl

end

theorem readable_of_tokenize {text : String} {table : SymbolTable} {t : Tokenization}
    (h : tokenize text table = .ok t) {d : Diagnostic} (hd : d ∈ t.diagnostics) (reason : String) :
    d.problem ≠ .sourceUnreadable reason := by
  rw [tokenize_eq (.refl table)] at h
  obtain ⟨found, -, rfl⟩ := ok_of_map h
  obtain ⟨p, hp, given⟩ := List.mem_filterMap.mp hd
  obtain ⟨_, g, _, _, -, cuts⟩ := cuts_of_mem_segments hp
  obtain ⟨-, rfl⟩ := cuts.reported given
  rw [problemAt]
  split <;> (intro same; cases same)

theorem Text.last_placed (before : List Char) :
    (placed .first (before ++ ['\n'])).getLast? = some ⟨'\n', Position.first.past before⟩ := by
  rw [placed_append, List.getLast?_append]
  rfl

/-- What was found up to a line that cannot be decoded, after the line end at a place. -/
def Tokenization.cutShort (t : Tokenization) (place : Position) : Tokenization :=
  { t with diagnostics :=
      t.diagnostics ++ [⟨.sourceUnreadable "stream did not contain valid UTF-8", place⟩] }

/-- Bytes come to what the text before their first bad line comes to, with one diagnostic more if
there is such a line. The lines beyond are not read. -/
theorem ofSource_ofBytes (bytes : List UInt8) (table : SymbolTable) :
    let source := LineReader.ofBytes bytes
    ∃ text : String, Text.decode? (LineReader.readable bytes).flatten = some text ∧
      (∀ t, tokenize text table = .ok t →
        ∀ d ∈ t.diagnostics, ∀ reason, d.problem ≠ .sourceUnreadable reason) ∧
      (bytes.length < wordLimit → ∃ t, Tokenization.ofSource source table = .ok t) ∧
      ((∀ line ∈ Text.byteLines bytes, LineReader.decodes line = true) →
        (LineReader.readable bytes).flatten = bytes ∧
          Tokenization.ofSource source table = tokenize text table) ∧
      ((∃ line ∈ Text.byteLines bytes, LineReader.decodes line = false) →
        ∃ place, (text = "" ∧ place = ⟨0, 0⟩ ∨
            ∃ before, text = before ++ "\n" ∧ place = Position.first.past before.toList) ∧
          Tokenization.ofSource source table = (tokenize text table).map (·.cutShort place) ∧
          (∀ drained, (TokenStream.ofSource (⟨source, 0, 0⟩ : Metered LineReader) table).rest =
              .ok drained → drained.2.source.reads = text.length + 1) ∧
          ∀ k, LineReader.given ((source.after (List.replicate (text.length + 1) .read)).converse
              (List.replicate k .read)) =
            Outcome.padded (LineReader.deliver (LineReader.readable bytes).length
              ((LineReader.beyond bytes).map Line.ofBytes)) k) := by
  intro source
  obtain ⟨cs, encoded⟩ : ∃ cs, (LineReader.readable bytes).flatten = Text.encode cs :=
    LineReader.exists_encoded fun _ => LineReader.decodes_of_readable
  obtain ⟨glyphs, whole, failed⟩ := LineReader.glyphs_ofBytes encoded
  have text := tokenize_eq (.refl table) (String.ofList cs)
  rw [String.toList_ofList, Text.segments] at text
  have decoded : Text.decode? (LineReader.readable bytes).flatten = some (String.ofList cs) := by
    rw [encoded, Text.decode?_encode]
  refine ⟨String.ofList cs, decoded, ?_, ?_, ?_, ?_⟩
  · intro t done d hd reason
    exact readable_of_tokenize done hd reason
  · intro short
    have length := LineReader.length_le_of_readable decoded
    rw [String.length_ofList] at length
    have fits : ∀ q ∈ segments table.kind? (Text.placed .first cs), q.Fits :=
      Text.fits_segments (Nat.lt_of_le_of_lt length short)
    obtain ⟨found, collected⟩ := collect_returns fits table
    rw [Tokenization.ofSource_eq (.refl table), glyphs, collected]
    exact ⟨_, rfl⟩
  · intro all
    refine ⟨?_, ?_⟩
    · rw [LineReader.readable_of_all all]
      exact Text.flatten_cutAfter _ bytes
    · rw [Tokenization.ofSource_eq (.refl table), glyphs, whole all, reports_endOfInput, text]
  · intro some
    have ended := LineReader.ended_of_bad encoded some
    refine ⟨(Text.placed .first cs).getLast?.elim .start Glyph.position, ?_, ?_, ?_, ?_⟩
    · rcases ended with rfl | ⟨before, rfl⟩
      · exact .inl ⟨rfl, rfl⟩
      · refine .inr ⟨String.ofList before, String.ofList_append, ?_⟩
        rw [Text.last_placed, String.toList_ofList]
        rfl
    -- The text ends with its line, so the last segment is not reported.
    · have newline : ∀ g ∈ (Text.placed .first cs).getLast?, g.char = '\n' := by
        rcases ended with rfl | ⟨before, rfl⟩
        · intro g last
          cases last
        · intro g last
          rw [Text.last_placed] at last
          cases last
          rfl
      rw [Tokenization.ofSource_eq (.refl table), glyphs, failed some, reports_of_ended _ newline,
        text]
      cases collect table (segments table.kind? (Text.placed .first cs)) <;> rfl
    · intro drained rest
      rw [TokenStream.reads_of_rest rest, glyphs, Text.length_placed, String.length_ofList]
    · intro k
      rw [String.length_ofList]
      exact LineReader.given_beyond encoded some k

/-- A bad line between two good ones. -/
theorem ofSource_ofBytes_bad_line :
    let bytes : List UInt8 := [0x31, 0x0a, 0xff, 0x0a, 0x32]
    (∃ line ∈ Text.byteLines bytes, LineReader.decodes line = false) ∧
      ∃ t, Tokenization.ofSource (LineReader.ofBytes bytes) .standard = .ok t ∧
        t.tokens = [⟨⟨51, "1", .integerLiteral⟩, 1, 0, 0⟩] ∧
        t.diagnostics =
          [⟨.sourceUnreadable "stream did not contain valid UTF-8", ⟨1, 1⟩⟩] := by
  intro bytes
  have some : ∃ line ∈ Text.byteLines bytes, LineReader.decodes line = false := by decide +kernel
  refine ⟨some, ?_⟩
  obtain ⟨text, decoded, -, -, -, failing⟩ := ofSource_ofBytes bytes .standard
  obtain rfl : text = "1\n" := by
    have front : Text.decode? (LineReader.readable bytes).flatten = Option.some "1\n" := by
      decide +kernel
    exact Option.some.inj (decoded.symm.trans front)
  obtain ⟨place, stands, truncated, -⟩ := failing some
  have place : place = ⟨1, 1⟩ := by
    rcases stands with ⟨empty, -⟩ | ⟨before, split, rfl⟩
    · exact absurd empty (by decide)
    · rw [← String.toList_inj, String.toList_append] at split
      have same : ['1'] ++ "\n".toList = before.toList ++ "\n".toList := split
      rw [← List.append_cancel_right same]
      rfl
  have found : (tokenize "1\n" .standard).map (fun t => (t.tokens, t.diagnostics)) =
      .ok ([⟨⟨51, "1", .integerLiteral⟩, 1, 0, 0⟩], []) := by decide +kernel
  obtain ⟨t, done, same⟩ := ok_of_map found
  obtain ⟨tokens, diagnostics⟩ := Prod.mk.inj same
  rw [done] at truncated
  refine ⟨t.cutShort _, truncated, tokens, ?_⟩
  rw [Tokenization.cutShort, diagnostics, List.nil_append, place]

end Lexis
