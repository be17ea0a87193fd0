/-! Finite maps, kept as a list of pairs in ascending order of their keys. -/

namespace Wanda

structure Table (α β : Type) where
  entries : List (α × β)
  deriving DecidableEq, Repr

namespace Table

variable {α β : Type}

def empty : Table α β :=
  ⟨[]⟩

def find? [DecidableEq α] (k : α) : List (α × β) → Option β
  | [] => none
  | (l, v) :: rest => if k = l then some v else find? k rest

def get? [DecidableEq α] (t : Table α β) (k : α) : Option β :=
  find? k t.entries

def erase [DecidableEq α] (t : Table α β) (k : α) : Table α β :=
  ⟨t.entries.filter (·.1 ≠ k)⟩

def remove [DecidableEq α] (t : Table α β) (k : α) : Option β × Table α β :=
  (t.get? k, t.erase k)

/-- An order in which tables give their pairs. No table fixes it, and it may be any. -/
structure Listing (α β : Type) where
  pairs : Table α β → List (α × β)
  perm : ∀ t, (pairs t).Perm t.entries

def Listing.ascending : Listing α β where
  pairs := entries
  perm := fun _ => .refl _

variable [DecidableEq α] [LT α] [DecidableLT α]

def place (k : α) (v : β) : List (α × β) → List (α × β)
  | [] => [(k, v)]
  | (l, w) :: rest =>
    if k = l then (k, v) :: rest
    else if k < l then (k, v) :: (l, w) :: rest
    else (l, w) :: place k v rest

def insert (t : Table α β) (k : α) (v : β) : Table α β :=
  ⟨place k v t.entries⟩

/-- Insert the pairs in order, so that the last pair of a key counts. -/
def ofList (pairs : List (α × β)) : Table α β :=
  pairs.foldl (fun t p => t.insert p.1 p.2) empty

private theorem find?_place (k l : α) (v : β) (es : List (α × β)) :
    find? l (place k v es) = if l = k then some v else find? l es := by
  induction es with
  | nil => simp [place, find?]
  | cons e es ih => grind [place, find?]

theorem get?_insert (t : Table α β) (k l : α) (v : β) :
    (t.insert k v).get? l = if l = k then some v else t.get? l :=
  find?_place k l v t.entries

omit [LT α] [DecidableLT α] in
private theorem find?_filter (k l : α) (es : List (α × β)) :
    find? l (es.filter (·.1 ≠ k)) = if l = k then none else find? l es := by
  induction es with
  | nil => simp [find?]
  | cons e es ih => grind [find?]

omit [LT α] [DecidableLT α] in
theorem get?_erase (t : Table α β) (k l : α) :
    (t.erase k).get? l = if l = k then none else t.get? l :=
  find?_filter k l t.entries

private theorem filter_place (k : α) (v : β) (es : List (α × β)) :
    (place k v es).filter (·.1 ≠ k) = es.filter (·.1 ≠ k) := by
  induction es with
  | nil => simp [place]
  | cons e es ih => grind [place]

@[simp] theorem erase_insert (t : Table α β) (k : α) (v : β) :
    (t.insert k v).erase k = t.erase k :=
  congrArg Table.mk (filter_place k v t.entries)

end Table
end Wanda
