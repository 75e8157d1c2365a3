import DocStream.Convert.Basic
import DocStream.Proofs.Convert.Flattening
import DocStream.Proofs.Outcome

/-!
# Nesting and flattening in one walk

Nesting and flattening can be done in one walk through a document. The walk counts the containers
that are open: one more when it enters a container, one less when it leaves it. It keeps the path by
which it came in the same way, and collects the leaves that are emitted. Whatever it met, it comes
back to where it was, so its count is the depth that nesting and flattening pass down.

* `Json.visit` — **the walk**, for either strategy;
* `Json.visit_nest`, `Json.visit_flatten` — what it does to a value, wherever it stands;
* `ConversionSettings.convert_eq_walk` — **a conversion is one walk**.

The two directions of a container cancel: entering adds one to the count and leaving takes it off, a
step is put on the path and taken from it. With the lemmas about that, each strategy is one
induction on the document. Nesting leaves the emitted leaves alone and gives what was converted;
flattening gives nothing and adds to the leaves, so there the walk is compared by where it ends.
-/

namespace DocStream

open Outcome

/-- **Where a walk stands**: the number of open containers, the path by which it came, and the leaves
emitted so far. -/
structure Walk where
  depth : Nat := 0
  path : Path := []
  flat : FlatRecord := .empty

namespace Walk

variable (w : Walk)

/-- A container is entered while fewer than the limit are open. -/
def descend (maxDepth : Nat) : Outcome Walk :=
  if maxDepth ≤ w.depth then .error (.depthExceeded maxDepth)
  else .ok { w with depth := w.depth + 1 }

def ascend : Walk := { w with depth := w.depth - 1 }

def push (part : String) : Walk := { w with path := w.path ++ [part] }

def pop : Walk := { w with path := w.path.dropLast }

/-- The walk with other leaves emitted. -/
def withFlat (flat : FlatRecord) : Walk := { w with flat }

/-- **What a value was converted to is kept** for its container, or emitted where the walk stands.
-/
def keep (strategy : Strategy) (leaf? : Option (Schema × Value)) : Outcome Walk :=
  match strategy, leaf? with
  | .flatten, some leaf => w.withFlat <$> Json.emit w.path w.flat leaf
  | _, _ => .ok w

theorem pop_push (part : String) : (w.push part).pop = w := by
  show Walk.mk w.depth (w.path ++ [part]).dropLast w.flat = w
  rw [List.dropLast_concat]

theorem pop_withFlat_push (part : String) (flat : FlatRecord) :
    ((w.push part).withFlat flat).pop = w.withFlat flat :=
  (w.withFlat flat).pop_push part

/-- The walk one container deeper, which is where it stands after entering one. -/
def inside : Walk := { w with depth := w.depth + 1 }

/-- A container is entered, or there is no room for it. -/
theorem descend_eq (maxDepth : Nat) : w.descend maxDepth =
    if maxDepth ≤ w.depth then .error (.depthExceeded maxDepth) else .ok w.inside := rfl

end Walk

namespace Json

mutual

/-- **A walk through a value.** It gives the schema and the value, unless those of the parts have
been emitted. -/
def visit (strategy : Strategy) (maxDepth : Nat) (w : Walk) :
    Json → Outcome (Option (Schema × Value) × Walk)
  | null => .ok (some (Schema.ofNull, .null), w)
  | bool b => do return (some (← typedLeaf (.boolean b)), w)
  | num n => do return (some (← Value.ofNumeral? n >>= typedLeaf), w)
  | str s => do return (some (← typedLeaf (.string s)), w)
  | arr items => do
    let inside ← w.descend maxDepth
    let (typed, inside) ← visitItems strategy maxDepth inside 0 items
    match strategy with
    | .nest =>
      let (element, values) ← reconcile inside.path typed
      return (some (.array element (w.depth ≠ 0), .array values), inside.ascend)
    | .flatten => return (none, inside.ascend)
  | obj members => do
    let inside ← w.descend maxDepth
    let (slots, inside) ← visitMembers strategy maxDepth inside members
    match strategy with
    | .nest =>
      let record := Record.ofSlots slots (w.depth ≠ 0)
      return (some (record.schema, record.toValue), inside.ascend)
    | .flatten => return (none, inside.ascend)

/-- The items of an array from the given index on, and what they were converted to. -/
def visitItems (strategy : Strategy) (maxDepth : Nat) (w : Walk) (index : Nat) :
    List Json → Outcome (List (Schema × Value) × Walk)
  | [] => .ok ([], w)
  | item :: rest => do
    let (leaf?, w) ← visit strategy maxDepth (w.push (toString index)) item
    let w ← w.keep strategy leaf?
    let (typed, w) ← visitItems strategy maxDepth w.pop (index + 1) rest
    return (leaf?.toList ++ typed, w)

/-- The members of an object, each under its name, and the slots they were converted to. -/
def visitMembers (strategy : Strategy) (maxDepth : Nat) (w : Walk) :
    List (String × Json) → Outcome (List Slot × Walk)
  | [] => .ok ([], w)
  | (name, item) :: rest => do
    let (leaf?, w) ← visit strategy maxDepth (w.push name) item
    let w ← w.keep strategy leaf?
    let (slots, w) ← visitMembers strategy maxDepth w.pop rest
    return (leaf?.toList.map (fun leaf => ((name, leaf.1), leaf.2)) ++ slots, w)

end

variable {maxDepth : Nat}

/-- A scalar is converted alike by both strategies, and the walk does not move. -/
theorem visit_scalar {strategy : Strategy} (w : Walk) {d : Json} (hd : d.isContainer = false) :
    visit strategy maxDepth w d =
      (fun leaf => (some leaf, w)) <$> nest maxDepth w.depth w.path d := by
  cases d with
  | null => rfl
  | bool | num | str => rw [visit, nest, map_eq_pure_bind]
  | arr | obj => cases hd

/-! ### Nesting -/

/-- The items of an array are converted as nesting converts them, if each of them is, and the walk
comes back to where it was. -/
theorem visitItems_nest {items : List Json}
    (hitems : ∀ j ∈ items, ∀ w : Walk, visit .nest maxDepth w j =
      (fun leaf => (some leaf, w)) <$> nest maxDepth w.depth w.path j) (w : Walk) (index : Nat) :
    visitItems .nest maxDepth w index items =
      (fun typed => (typed, w)) <$> nestItems maxDepth w.depth w.path index items := by
  induction items generalizing index with
  | nil => rfl
  | cons item rest ih =>
    have hrest := ih (fun j hj => hitems j (List.mem_cons_of_mem _ hj)) (index + 1)
    rw [visitItems, nestItems, hitems item List.mem_cons_self, bind_map_left, map_bind]
    -- the item is kept for its array, and the walk steps back before the next one
    refine bind_congr fun leaf => ?_
    show (visitItems .nest maxDepth (w.push (toString index)).pop (index + 1) rest >>= fun p =>
      pure (leaf :: p.1, p.2)) = _
    rw [Walk.pop_push, hrest, bind_map_left, map_bind]
    rfl

/-- The members of an object are converted as nesting converts them, if each of them is. -/
theorem visitMembers_nest {members : Members}
    (hmembers : ∀ m ∈ members, ∀ w : Walk, visit .nest maxDepth w m.2 =
      (fun leaf => (some leaf, w)) <$> nest maxDepth w.depth w.path m.2) (w : Walk) :
    visitMembers .nest maxDepth w members =
      (fun slots => (slots, w)) <$> nestMembers maxDepth w.depth w.path members := by
  induction members with
  | nil => rfl
  | cons m rest ih =>
    obtain ⟨name, item⟩ := m
    have hrest := ih fun m hm => hmembers m (List.mem_cons_of_mem _ hm)
    rw [visitMembers, nestMembers, hmembers _ List.mem_cons_self, bind_map_left, map_bind]
    -- as with items, but the slot has the name of the member
    refine bind_congr fun leaf => ?_
    show (visitMembers .nest maxDepth (w.push name).pop rest >>= fun p =>
      pure (((name, leaf.1), leaf.2) :: p.1, p.2)) = _
    rw [Walk.pop_push, hrest, bind_map_left, map_bind]
    rfl

/-- **A nesting walk** converts a value as nesting does where the walk stands, and ends there. By
induction on the document, with the walk kept general. -/
theorem visit_nest (w : Walk) (d : Json) : visit .nest maxDepth w d =
    (fun leaf => (some leaf, w)) <$> nest maxDepth w.depth w.path d := by
  induction d using Json.byParts generalizing w with
  | null | bool | num | str => exact visit_scalar w rfl
  | arr items ih =>
    rw [visit, nest, Walk.descend_eq]
    split
    · rfl
    · show (visitItems .nest maxDepth w.inside 0 items >>= fun p =>
        reconcile p.2.path p.1 >>= fun r =>
          pure (some (Schema.array r.1 (w.depth ≠ 0), Value.array r.2), p.2.ascend)) = _
      rw [visitItems_nest (fun j hj w => ih j hj w), bind_map_left, map_bind]
      refine bind_congr fun typed => ?_
      rw [map_bind]
      rfl
  | obj members ih =>
    rw [visit, nest, Walk.descend_eq]
    split
    · -- no room for the object, as for the array above
      rfl
    · show (visitMembers .nest maxDepth w.inside members >>= fun p =>
        pure (some ((Record.ofSlots p.1 (w.depth ≠ 0)).schema,
          (Record.ofSlots p.1 (w.depth ≠ 0)).toValue), p.2.ascend)) = _
      rw [visitMembers_nest (fun m hm w => ih m hm w), bind_map_left, map_bind]
      rfl

/-! ### Flattening -/

/-- The leaves of items are emitted as flattening emits them, if those of each item are. -/
theorem visitItems_flatten {items : List Json}
    (hitems : ∀ j ∈ items, ∀ w : Walk,
      (visit .flatten maxDepth w j >>= fun p => p.2.keep .flatten p.1) =
        w.withFlat <$> flattenInto maxDepth w.depth w.path w.flat j)
    (w : Walk) (index : Nat) : Prod.snd <$> visitItems .flatten maxDepth w index items =
      w.withFlat <$> flattenItems maxDepth w.depth w.path index w.flat items := by
  induction items generalizing w index with
  | nil => rfl
  | cons item rest ih =>
    have hrest := ih fun j hj => hitems j (List.mem_cons_of_mem _ hj)
    -- the leaves have been emitted, so what the list collects is of no account
    have hemitted : Prod.snd <$> visitItems .flatten maxDepth w index (item :: rest) =
        (visit .flatten maxDepth (w.push (toString index)) item >>= fun p =>
          p.2.keep .flatten p.1) >>= fun w =>
            Prod.snd <$> visitItems .flatten maxDepth w.pop (index + 1) rest := by
      rw [visitItems, map_bind, bind_assoc]
      refine bind_congr fun p => ?_
      rw [map_bind]
      refine bind_congr fun w => ?_
      rw [map_bind, map_eq_pure_bind]
      rfl
    rw [hemitted, hitems item List.mem_cons_self, bind_map_left, flattenItems, map_bind]
    refine bind_congr fun flat => ?_
    rw [Walk.pop_withFlat_push, hrest]
    rfl

/-- The leaves of members are emitted as flattening emits them, if those of each member are. -/
theorem visitMembers_flatten {members : Members}
    (hmembers : ∀ m ∈ members, ∀ w : Walk,
      (visit .flatten maxDepth w m.2 >>= fun p => p.2.keep .flatten p.1) =
        w.withFlat <$> flattenInto maxDepth w.depth w.path w.flat m.2)
    (w : Walk) : Prod.snd <$> visitMembers .flatten maxDepth w members =
      w.withFlat <$> flattenMembers maxDepth w.depth w.path w.flat members := by
  induction members generalizing w with
  | nil => rfl
  | cons m rest ih =>
    obtain ⟨name, item⟩ := m
    have hrest := ih fun m hm => hmembers m (List.mem_cons_of_mem _ hm)
    -- again nothing is collected that would matter
    have hemitted : Prod.snd <$> visitMembers .flatten maxDepth w ((name, item) :: rest) =
        (visit .flatten maxDepth (w.push name) item >>= fun p => p.2.keep .flatten p.1) >>= fun w =>
          Prod.snd <$> visitMembers .flatten maxDepth w.pop rest := by
      rw [visitMembers, map_bind, bind_assoc]
      refine bind_congr fun p => ?_
      rw [map_bind]
      refine bind_congr fun w => ?_
      rw [map_bind, map_eq_pure_bind]
      rfl
    rw [hemitted, hmembers _ List.mem_cons_self, bind_map_left, flattenMembers, map_bind]
    refine bind_congr fun flat => ?_
    rw [Walk.pop_withFlat_push, hrest]
    rfl

/-- A container whose parts have been emitted is left as it was entered. -/
theorem leave_flatten {α : Type} {w : Walk} {x : Outcome (α × Walk)} {y : Outcome FlatRecord}
    (h : Prod.snd <$> x = w.inside.withFlat <$> y) :
    ((x >>= fun p => pure ((none : Option (Schema × Value)), p.2.ascend)) >>= fun p =>
      p.2.keep .flatten p.1) = w.withFlat <$> y :=
  calc ((x >>= fun p => pure ((none : Option (Schema × Value)), p.2.ascend)) >>= fun p =>
        p.2.keep .flatten p.1)
    _ = Walk.ascend <$> Prod.snd <$> x := by
      rw [bind_assoc, ← comp_map, map_eq_pure_bind]
      rfl
    _ = Walk.ascend <$> w.inside.withFlat <$> y := by rw [h]
    _ = w.withFlat <$> y := by
      rw [← comp_map]
      rfl

/-- **A flattening walk** emits the leaves of a value as flattening does where the walk stands, and
ends there. By induction on the document, with the walk and its leaves kept general. -/
theorem visit_flatten (w : Walk) (d : Json) :
    (visit .flatten maxDepth w d >>= fun p => p.2.keep .flatten p.1) =
      w.withFlat <$> flattenInto maxDepth w.depth w.path w.flat d := by
  -- a scalar is kept by the one who asked for it, which is where it is emitted
  have hscalar : ∀ {w : Walk} {d : Json}, d.isContainer = false →
      (visit .flatten maxDepth w d >>= fun p => p.2.keep .flatten p.1) =
        w.withFlat <$> flattenInto maxDepth w.depth w.path w.flat d := by
    intro w d hd
    rw [visit_scalar w hd, flattenInto_scalar hd, bind_map_left, map_bind]
    rfl
  induction d using Json.byParts generalizing w with
  | null | bool | num | str => exact hscalar rfl
  | arr items ih =>
    rw [visit, flattenInto, Walk.descend_eq]
    split
    · rfl
    · exact leave_flatten (visitItems_flatten (fun j hj w => ih j hj w) w.inside 0)
  | obj members ih =>
    rw [visit, flattenInto, Walk.descend_eq]
    split
    · rfl
    · exact leave_flatten (visitMembers_flatten (fun m hm w => ih m hm w) w.inside)

end Json

/-! ### Conversions -/

/-- **The conversion of a document by one walk** from its root. -/
def ConversionSettings.walk (s : ConversionSettings) (d : Json) : Outcome Converted := do
  let (leaf?, w) ← d.visit s.strategy s.maxDepth {}
  match s.strategy with
  | .nest =>
    let (schema, value) := leaf?.getD (Schema.ofNull, .null)
    return .structured schema value
  | .flatten => return .flattened (← w.keep .flatten leaf?).flat

/-- **A conversion with a schema is one walk**, for either strategy. The depth that the walk counts
is the depth that nesting and flattening are given. -/
theorem ConversionSettings.convert_eq_walk {s : ConversionSettings} (h : s.structured = true)
    (d : Json) : s.convert d = s.walk d := by
  rw [convert, if_pos h, walk]
  cases s.strategy with
  | nest =>
    rw [Json.visit_nest, bind_map_left]
    rfl
  | flatten =>
    have hwalk : (d.visit .flatten s.maxDepth {} >>= fun p => p.2.keep .flatten p.1) = _ :=
      Json.visit_flatten {} d
    show _ = d.visit .flatten s.maxDepth {} >>= fun p =>
      p.2.keep .flatten p.1 >>= fun w => pure (Converted.flattened w.flat)
    rw [← bind_assoc, hwalk, bind_map_left, map_eq_pure_bind]
    rfl

end DocStream
