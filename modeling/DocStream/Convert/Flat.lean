import DocStream.Value

/-!
# Flat records

The leaves of a document in the order in which they are met, each named by its path: object keys and
array indices joined by points. A path occurs once; that is part of the type.

* `FlatRecord.insert?` — one more leaf, unless its path is taken;
* `FlatRecord.toRecord` — the record with one field per path.
-/

namespace DocStream

/-- A leaf with its path and its schema. -/
structure FlatEntry where
  path : String
  schema : Schema
  value : Value

/-- **Leaves by path**, in order of insertion. No two have the same path, so a path can stand for
its leaf. -/
structure FlatRecord where
  entries : List FlatEntry
  nodup : (entries.map FlatEntry.path).Nodup

namespace FlatRecord

def empty : FlatRecord := ⟨[], by simp⟩

/-- The paths, in order of insertion. -/
def paths (r : FlatRecord) : List String := r.entries.map FlatEntry.path

/-- **One more leaf**, behind those that are there. A path that is taken is a failure, never an
overwrite. -/
def insert? (r : FlatRecord) (e : FlatEntry) : Outcome FlatRecord :=
  if h : e.path ∈ r.paths then .error (.duplicatePath e.path)
  else .ok ⟨r.entries ++ [e], by
    rw [List.map_append, List.nodup_append]
    refine ⟨r.nodup, by simp, fun p hp q hq hpq => h ?_⟩
    have hq : q = e.path := by simpa using hq
    exact hq ▸ hpq ▸ hp⟩

def get? (r : FlatRecord) (path : String) : Option FlatEntry :=
  r.entries.find? fun e => e.path == path

def size (r : FlatRecord) : Nat := r.entries.length

/-- **The record with one field per path**, not optional. The fields are in the order of their
names, as in any record, and no longer in that of insertion. -/
def toRecord (r : FlatRecord) : Record :=
  Record.ofSlots (r.entries.map fun e => ((e.path, e.schema), e.value)) false

@[simp] theorem entries_empty : empty.entries = [] := rfl

/-- A leaf that could be inserted is the last one. -/
theorem entries_insert? {r r' : FlatRecord} {e : FlatEntry} (h : r.insert? e = .ok r') :
    r'.entries = r.entries ++ [e] := by
  unfold insert? at h
  split at h
  · exact nomatch h
  · injection h with h; rw [← h]

end FlatRecord
end DocStream
