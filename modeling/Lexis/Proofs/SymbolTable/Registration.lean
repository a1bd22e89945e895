import Lexis.Proofs.SymbolTable.Kinds
import Mathlib.Data.List.Dedup

/-! Tables that grow by registering one spelling after another. They hold every spelling once, in
the order of registration and with the kind of the first one. -/

namespace Lexis.SymbolTable

/-- A table in which spellings were registered one after another. -/
def internAll (table : SymbolTable) (entries : List (String × Kind)) : SymbolTable :=
  entries.foldl (fun table entry => (table.intern entry.1 entry.2).2) table

@[simp] theorem internAll_nil (table : SymbolTable) : table.internAll [] = table := rfl

theorem internAll_cons (table : SymbolTable) (entry : String × Kind)
    (entries : List (String × Kind)) :
    table.internAll (entry :: entries) = (table.intern entry.1 entry.2).2.internAll entries := rfl

theorem internAll_append (table : SymbolTable) (entries more : List (String × Kind)) :
    table.internAll (entries ++ more) = (table.internAll entries).internAll more :=
  List.foldl_append

theorem standard_eq_internAll : standard = empty.internAll Kind.fixed := rfl

/-- What holds of a table, and is kept by each registration, holds after all of them. -/
theorem internAll_induction {motive : SymbolTable → Prop}
    {entries : List (String × Kind)}
    (step : ∀ table, ∀ entry ∈ entries, motive table → motive (table.intern entry.1 entry.2).2)
    {table : SymbolTable} (start : motive table) : motive (table.internAll entries) := by
  induction entries generalizing table with
  | nil => exact start
  | cons entry entries ih =>
      apply ih
      · intro table later mem
        exact step table later (List.mem_cons_of_mem _ mem)
      · exact step table entry List.mem_cons_self start

/-! The kinds of registered spellings. -/

theorem kind?_intern_eq_or (table : SymbolTable) (spelling other : String) (kind : Kind) :
    (table.intern spelling kind).2.kind? other =
      (table.kind? other).or (if other = spelling then some kind else none) := by
  rw [kind?_intern]
  by_cases h : other = spelling
  · subst h
    rw [if_pos rfl, if_pos rfl]
    cases table.kind? other <;> rfl
  · rw [if_neg h, if_neg h, Option.or_none]

theorem kind?_internAll (table : SymbolTable) (entries : List (String × Kind)) (spelling : String) :
    (table.internAll entries).kind? spelling =
      (table.kind? spelling).or (entries.lookup spelling) := by
  induction entries generalizing table with
  | nil => rw [internAll_nil, List.lookup_nil, Option.or_none]
  | cons entry entries ih =>
      rw [internAll_cons, ih, kind?_intern_eq_or, Option.or_assoc, List.lookup_cons]
      by_cases h : spelling = entry.1
      · simp [h]
      · simp [h, beq_false_of_ne h]

theorem kind?_standard : standard.kind? = Kind.ofSpelling? := by
  funext spelling
  rw [standard_eq_internAll, kind?_internAll, Kind.ofSpelling?]
  rfl

theorem kind?_standard_internAll (entries : List (String × Kind)) (spelling : String) :
    (standard.internAll entries).kind? spelling = (Kind.fixed ++ entries).lookup spelling := by
  rw [standard_eq_internAll, ← internAll_append, kind?_internAll]
  rfl

theorem contains_eq (table : SymbolTable) (spelling : String) :
    table.contains spelling = (table.kind? spelling).isSome := by
  rw [contains, kind?, Option.isSome_map]

theorem isSome_lookup {entries : List (String × Kind)} {spelling : String} :
    (entries.lookup spelling).isSome = true ↔ spelling ∈ entries.map Prod.fst := by
  rw [List.lookup_isSome_iff]
  simp only [List.mem_map, beq_iff_eq]
  constructor
  · rintro ⟨entry, mem, rfl⟩
    exact ⟨entry, mem, rfl⟩
  · rintro ⟨entry, mem, rfl⟩
    exact ⟨entry, mem, rfl⟩

theorem contains_internAll (table : SymbolTable) (entries : List (String × Kind))
    (spelling : String) : (table.internAll entries).contains spelling = true ↔
      table.contains spelling = true ∨ spelling ∈ entries.map Prod.fst := by
  rw [contains_eq, contains_eq, kind?_internAll, Option.isSome_or, Bool.or_eq_true, isSome_lookup]

theorem contains_standard (spelling : String) :
    standard.contains spelling = true ↔ spelling ∈ Kind.fixed.map Prod.fst := by
  rw [contains_eq, kind?_standard, Kind.ofSpelling?, isSome_lookup]

/-! The symbols of registered spellings. -/

theorem resolve?_internAll {table : SymbolTable} {spelling : String} {symbol : Symbol}
    (h : table.resolve? spelling = some symbol) (entries : List (String × Kind)) :
    (table.internAll entries).resolve? spelling = some symbol := by
  apply internAll_induction (motive := fun later => later.resolve? spelling = some symbol) ?_ h
  intro later entry _ kept
  by_cases same : spelling = entry.1
  · rw [← same, intern_of_resolve kept, kept]
  · rw [resolve?_intern_of_ne same, kept]

theorem contains_iff (table : SymbolTable) (spelling : String) :
    table.contains spelling = true ↔ spelling ∈ table.symbols.map Symbol.spelling := by
  rw [contains, resolve?, List.find?_isSome]
  simp only [List.mem_map, beq_iff_eq]

theorem mem_of_resolve? {table : SymbolTable} {spelling : String} {symbol : Symbol}
    (h : table.resolve? spelling = some symbol) : symbol ∈ table.symbols :=
  List.mem_of_find?_eq_some h

/-- Symbols are numbered in the order of registration, and no spelling is registered twice. -/
structure WellFormed (table : SymbolTable) : Prop where
  ids : table.symbols.map Symbol.id = (List.range table.size).reverse
  spellings : (table.symbols.map Symbol.spelling).Nodup

namespace WellFormed

variable {table : SymbolTable}

theorem empty : SymbolTable.empty.WellFormed := ⟨rfl, List.nodup_nil⟩

theorem intern (h : table.WellFormed) (spelling : String) (kind : Kind) :
    (table.intern spelling kind).2.WellFormed := by
  rw [SymbolTable.intern]
  split
  next => exact h
  next absent =>
    constructor
    · change table.size :: table.symbols.map Symbol.id = (List.range (table.size + 1)).reverse
      rw [h.ids, List.range_succ, List.reverse_append]
      rfl
    · refine List.nodup_cons.mpr ⟨?_, h.spellings⟩
      intro mem
      obtain ⟨symbol, held, same⟩ := List.mem_map.mp mem
      exact List.find?_eq_none.mp absent symbol held (beq_iff_eq.mpr same)

theorem internAll (h : table.WellFormed) (entries : List (String × Kind)) :
    (table.internAll entries).WellFormed :=
  internAll_induction (fun _ _ _ kept => kept.intern _ _) h

theorem standard : SymbolTable.standard.WellFormed := empty.internAll Kind.fixed

theorem eq_of_spelling (h : table.WellFormed) {a b : Symbol} (ha : a ∈ table.symbols)
    (hb : b ∈ table.symbols) (same : a.spelling = b.spelling) : a = b :=
  List.inj_on_of_nodup_map h.spellings ha hb same

theorem eq_of_id (h : table.WellFormed) {a b : Symbol} (ha : a ∈ table.symbols)
    (hb : b ∈ table.symbols) (same : a.id = b.id) : a = b := by
  have distinct : (table.symbols.map Symbol.id).Nodup := by
    rw [h.ids]
    exact List.nodup_reverse.mpr List.nodup_range
  exact List.inj_on_of_nodup_map distinct ha hb same

/-- Symbols of one table are the same just when their spellings are. -/
theorem same_iff (h : table.WellFormed) {a b : Symbol} (ha : a ∈ table.symbols)
    (hb : b ∈ table.symbols) : a.same b = true ↔ a.spelling = b.spelling := by
  rw [Symbol.same, beq_iff_eq]
  constructor
  · intro same
    rw [h.eq_of_id ha hb same]
  · intro same
    rw [h.eq_of_spelling ha hb same]

theorem resolve?_of_mem (h : table.WellFormed) {symbol : Symbol} (held : symbol ∈ table.symbols) :
    table.resolve? symbol.spelling = some symbol := by
  cases found : table.resolve? symbol.spelling with
  | none => exact absurd (beq_self_eq_true _) (List.find?_eq_none.mp found symbol held)
  | some other =>
      rw [h.eq_of_spelling (mem_of_resolve? found) held (spelling_of_resolve found)]

end WellFormed

/-- Among spellings, those that have no kind of their own, each once. -/
def novel (spellings : List String) : List String :=
  (spellings.filter fun spelling => (Kind.ofSpelling? spelling).isNone).dedup

theorem nodup_fixed : (Kind.fixed.map Prod.fst).Nodup := by decide +kernel

/-- A spelling is fixed or among others. -/
def Known (spellings : List String) (spelling : String) : Prop :=
  spelling ∈ Kind.fixed.map Prod.fst ∨ spelling ∈ spellings

/-- The table holds the fixed spellings and some others, each by one symbol. -/
structure Holds (table : SymbolTable) (spellings : List String) : Prop where
  contains : ∀ spelling, table.contains spelling = true ↔ Known spellings spelling
  size : table.size = 51 + (novel spellings).length

theorem mem_novel {spellings : List String} {spelling : String} : spelling ∈ novel spellings ↔
    spelling ∈ spellings ∧ spelling ∉ Kind.fixed.map Prod.fst := by
  rw [novel, List.mem_dedup, List.mem_filter, ← isSome_lookup, Bool.not_eq_true,
    Option.isSome_eq_false_iff]
  rfl

/-- As no spelling occurs twice, the spellings that a table holds tell how many symbols it has. -/
theorem WellFormed.holds {table : SymbolTable} (h : table.WellFormed) {spellings : List String}
    (known : ∀ spelling, table.contains spelling = true ↔ Known spellings spelling) :
    table.Holds spellings := by
  have distinct : (Kind.fixed.map Prod.fst ++ novel spellings).Nodup := by
    refine List.Nodup.append nodup_fixed (List.nodup_dedup _) ?_
    intro spelling fixed new
    exact (mem_novel.mp new).2 fixed
  have perm : (table.symbols.map Symbol.spelling).Perm
      (Kind.fixed.map Prod.fst ++ novel spellings) := by
    refine (List.perm_ext_iff_of_nodup h.spellings distinct).mpr ?_
    intro spelling
    rw [← contains_iff, known, Known, List.mem_append, mem_novel]
    by_cases fixed : spelling ∈ Kind.fixed.map Prod.fst
    · simp [fixed]
    · simp [fixed]
  have counted := perm.length_eq
  rw [List.length_map, List.length_append, List.length_map] at counted
  exact ⟨known, counted⟩

theorem holds_standard : standard.Holds [] := by
  apply WellFormed.standard.holds
  intro spelling
  rw [contains_standard, Known]
  simp

theorem Holds.internAll {table : SymbolTable} {spellings more : List String}
    {entries : List (String × Kind)} (h : table.Holds spellings) (wf : table.WellFormed)
    (listed : ∀ entry ∈ entries, entry.1 ∈ more)
    (known : ∀ spelling ∈ more, (table.internAll entries).contains spelling = true) :
    (table.internAll entries).Holds (spellings ++ more) := by
  apply (wf.internAll entries).holds
  intro spelling
  rw [contains_internAll, h.contains, Known, Known, or_assoc, List.mem_append]
  constructor
  · rintro (fixed | before | registered)
    · exact .inl fixed
    · exact .inr (.inl before)
    · obtain ⟨entry, mem, rfl⟩ := List.mem_map.mp registered
      exact .inr (.inr (listed entry mem))
  · rintro (fixed | before | new)
    · exact .inl fixed
    · exact .inr (.inl before)
    · have held := known spelling new
      rw [contains_internAll, h.contains, Known, or_assoc] at held
      exact held

end Lexis.SymbolTable
