import Lexis.Kind

/-! Interned spellings: each spelling is registered once, and keeps the kind it was registered
with. -/

namespace Lexis

/-- A registered spelling. The number is its place in the order of registration. -/
structure Symbol where
  id : Nat
  spelling : String
  kind : Kind
deriving DecidableEq, Repr

/-- Identity of symbols of one table. -/
def Symbol.same (a b : Symbol) : Bool := a.id == b.id

/-- The symbols registered so far, the newest first. -/
structure SymbolTable where
  symbols : List Symbol
deriving Repr

namespace SymbolTable

def empty : SymbolTable := ⟨[]⟩

def size (table : SymbolTable) : Nat := table.symbols.length

def isEmpty (table : SymbolTable) : Bool := table.symbols.isEmpty

def resolve? (table : SymbolTable) (spelling : String) : Option Symbol :=
  table.symbols.find? fun symbol => symbol.spelling == spelling

def contains (table : SymbolTable) (spelling : String) : Bool :=
  (table.resolve? spelling).isSome

/-- The symbol of a spelling, which is registered with the given kind on first use. A symbol that is
already there keeps its kind. -/
def intern (table : SymbolTable) (spelling : String) (kind : Kind) : Symbol × SymbolTable :=
  match table.resolve? spelling with
  | some symbol => (symbol, table)
  | none =>
    let symbol := ⟨table.size, spelling, kind⟩
    (symbol, ⟨symbol :: table.symbols⟩)

def standard : SymbolTable :=
  Kind.fixed.foldl (fun table entry => (table.intern entry.1 entry.2).2) empty

end SymbolTable
end Lexis
