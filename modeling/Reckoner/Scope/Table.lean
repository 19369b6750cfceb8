import Reckoner.Token.Lexeme

/-! Finite maps from identifiers, kept as a list in the order of the names, so that
tables with the same bindings are equal. -/

namespace Reckoner

structure Table (α : Type) where
  entries : List (String × α)
  increasing : entries.Pairwise (fun a b => a.1 < b.1)
  named : ∀ e ∈ entries, Lexeme.isIdentifier e.1

namespace Table

variable {α : Type}

def empty : Table α := ⟨[], .nil, by simp⟩

def size (t : Table α) : Nat := t.entries.length

def names (t : Table α) : List String := t.entries.map Prod.fst

def get? (t : Table α) (name : String) : Option α := t.entries.lookup name

def contains (t : Table α) (name : String) : Bool := (t.get? name).isSome

def insertEntry (name : String) (value : α) : List (String × α) → List (String × α)
  | [] => [(name, value)]
  | e :: es =>
    if name < e.1 then (name, value) :: e :: es
    else if name = e.1 then (name, value) :: es
    else e :: insertEntry name value es

theorem mem_insertEntry {name : String} {value : α} {es : List (String × α)} {e : String × α}
    (h : e ∈ insertEntry name value es) : e = (name, value) ∨ e ∈ es := by
  induction es with
  | nil => simpa [insertEntry] using h
  | cons d es ih =>
    unfold insertEntry at h
    split at h
    · simpa using h
    · split at h <;> grind

theorem pairwise_insertEntry (name : String) (value : α) {es : List (String × α)}
    (h : es.Pairwise (fun a b => a.1 < b.1)) :
    (insertEntry name value es).Pairwise (fun a b => a.1 < b.1) := by
  induction es with
  | nil => simp [insertEntry]
  | cons e es ih =>
    have ⟨he, hes⟩ := List.pairwise_cons.1 h
    unfold insertEntry
    split
    next hlt =>
      refine List.pairwise_cons.2 ⟨fun d hd => ?_, h⟩
      rcases List.mem_cons.1 hd with rfl | hd
      · exact hlt
      · exact String.lt_trans hlt (he d hd)
    next hge =>
      split
      next heq => exact List.pairwise_cons.2 ⟨fun d hd => heq ▸ he d hd, hes⟩
      next hne =>
        refine List.pairwise_cons.2 ⟨fun d hd => ?_, ih hes⟩
        rcases mem_insertEntry hd with rfl | hd
        · exact String.not_le.1 fun hle => hne (String.le_antisymm hle (String.not_lt.1 hge))
        · exact he d hd

theorem lookup_insertEntry (name : String) (value : α) (es : List (String × α))
    (other : String) : (insertEntry name value es).lookup other =
      if other = name then some value else es.lookup other := by
  induction es with
  | nil => grind [insertEntry]
  | cons e es ih => grind [insertEntry]

theorem lookup_filter_ne (name : String) (es : List (String × α)) (other : String) :
    (es.filter (·.1 != name)).lookup other = if other = name then none else es.lookup other := by
  induction es with
  | nil => simp
  | cons e es ih => grind

def insert (t : Table α) (name : String) (value : α) (h : Lexeme.isIdentifier name) :
    Table α where
  entries := insertEntry name value t.entries
  increasing := pairwise_insertEntry name value t.increasing
  named e he := by
    rcases mem_insertEntry he with rfl | he
    · exact h
    · exact t.named e he

def erase (t : Table α) (name : String) : Table α where
  entries := t.entries.filter (·.1 != name)
  increasing := t.increasing.filter _
  named e he := t.named e ((List.mem_filter.1 he).1)

theorem get?_insert (t : Table α) (name : String) (value : α) (h : Lexeme.isIdentifier name)
    (other : String) : (t.insert name value h).get? other =
      if other = name then some value else t.get? other :=
  lookup_insertEntry name value t.entries other

theorem get?_erase (t : Table α) (name other : String) :
    (t.erase name).get? other = if other = name then none else t.get? other :=
  lookup_filter_ne name t.entries other

/-- Of two entries with one name the first counts. -/
def ofList : (es : List (String × α)) → (∀ e ∈ es, Lexeme.isIdentifier e.1) → Table α
  | [], _ => empty
  | e :: es, h =>
    (ofList es fun d hd => h d (List.mem_cons_of_mem _ hd)).insert e.1 e.2 (h e (by simp))

end Table

end Reckoner
