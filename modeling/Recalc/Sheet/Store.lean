import Recalc.Document.Error
import Recalc.Sheet.Basic

namespace Recalc

structure Store where
  sheets : Std.ExtTreeMap String Sheet

namespace Store

def empty : Store := ⟨∅⟩

def get? (s : Store) (id : String) : Option Sheet := s.sheets[id]?

def insert (s : Store) (sheet : Sheet) : Store := ⟨s.sheets.insert sheet.id sheet⟩

def remove (s : Store) (id : String) : Store := ⟨s.sheets.erase id⟩

def ofList (sheets : List Sheet) : Store := sheets.foldl insert empty

/-- Replace a sheet, which has to be there. -/
def update (s : Store) (sheet : Sheet) : Except EditError Store :=
  if sheet.id ∈ s.sheets then .ok (s.insert sheet) else .error (.sheetNotFound sheet.id)

def ids (s : Store) : List String := s.sheets.keys

end Store

end Recalc
