import DocStream.Json.Parser
import DocStream.Json.Printer
import DocStream.Proofs.Json.Nesting
import DocStream.Proofs.Json.Scanning

/-!
# Reading what was written compactly

The compact text of a canonical value is read as that value, unless its containers nest deeper than
the reader goes. The three steps of reading are undone one by one: the tokens of a value are scanned
off their spellings, the machine builds the tree of the value from them, and the tree has that
value.

* `Json.separate_tokens` — no two numbers of a value stand side by side;
* `Json.toWritten` — the tree that a value is written as;
* `Json.foldlM_tokens` — **the machine builds the tree** and stops behind it;
* `Json.value?_toWritten` — the value of the tree, within the limit on nesting;
* `Json.parse?_compact` — **the compact text is read** as the value, or refused for its nesting.

The machine has a stack for the containers that are open, and the trees of the tokens are nested. So
the induction on a value is for every stack: the tokens of a part are read as those of a whole value
are, with one more frame below. Between the parts the list of what is done grows, and it is stated
as growing.
-/

namespace DocStream.Json

/-! ### Tokens -/

/-- A value starts with a token that closes nothing. -/
theorem exists_tokens_eq_cons (j : Json) :
    ∃ t ts, j.tokens = t :: ts ∧ t ≠ .closeArray := by
  cases j <;> exact ⟨_, _, rfl, Token.noConfusion⟩

section Separate

open Token

/-- **Tokens that no number runs into**: no two numbers among them stand side by side, and the first
is none. -/
def Follows (ts : List Token) : Prop := Separate ts ∧ ∀ t ∈ ts.head?, t.isNumber = false

/-- A token that is no number, in front of any separate tokens. -/
theorem follows_cons {t : Token} {ts : List Token} (ht : t.isNumber = false) (h : Separate ts) :
    Follows (t :: ts) := by
  refine ⟨List.isChain_cons.mpr ⟨fun u _ hnumber => ?_, h⟩, fun u hu => ?_⟩
  · exact absurd (ht.symm.trans hnumber) Bool.false_ne_true
  · obtain rfl := Option.some.inj hu
    exact ht

/-- A token in front of tokens that no number runs into. -/
theorem separate_cons (t : Token) {ts : List Token} (h : Follows ts) : Separate (t :: ts) :=
  List.isChain_cons.mpr ⟨fun u hu _ => h.2 u hu, h.1⟩

/-- **No two numbers of a value stand side by side**, nor does one at its end run into what follows.
-/
theorem separate_tokens_append (j : Json) {ts : List Token} (h : Follows ts) :
    Separate (j.tokens ++ ts) := by
  -- by induction on the value, for everything that may follow it
  induction j using Json.byParts generalizing ts with
  | null | bool | num | str => exact separate_cons _ h
  | arr items ih =>
    have hmore : ∀ rest : List Json, (∀ j ∈ rest, ∀ {ts}, Follows ts → Separate (j.tokens ++ ts)) →
        Follows (moreItemTokens rest ++ ts) := by
      intro rest ih
      induction rest with
      | nil => exact follows_cons rfl h.1
      | cons item rest ih' =>
        rw [moreItemTokens, List.cons_append, List.cons_append, List.append_assoc]
        refine follows_cons rfl (ih item List.mem_cons_self ?_)
        exact ih' fun j hj => ih j (List.mem_cons_of_mem _ hj)
    -- the bracket in front is no number, and neither is the one behind
    rw [tokens, List.cons_append]
    refine (follows_cons rfl ?_).1
    cases items with
    | nil => exact (follows_cons rfl h.1).1
    | cons item rest =>
      rw [itemTokens, List.append_assoc]
      exact ih item List.mem_cons_self (hmore rest fun j hj => ih j (List.mem_cons_of_mem _ hj))
  | obj members ih =>
    -- a name and its colon stand in front of every value
    have hmore : ∀ rest : Members,
        (∀ m ∈ rest, ∀ {ts}, Follows ts → Separate (m.2.tokens ++ ts)) →
        Follows (moreMemberTokens rest ++ ts) := by
      intro rest ih
      induction rest with
      | nil => exact follows_cons rfl h.1
      | cons m rest ih' =>
        obtain ⟨name, item⟩ := m
        simp only [moreMemberTokens, List.cons_append, List.append_assoc]
        refine follows_cons rfl (follows_cons rfl (follows_cons rfl ?_).1).1
        exact ih _ List.mem_cons_self (ih' fun m hm => ih m (List.mem_cons_of_mem _ hm))
    rw [tokens, List.cons_append]
    refine (follows_cons rfl ?_).1
    cases members with
    | nil => exact (follows_cons rfl h.1).1
    | cons m rest =>
      obtain ⟨name, item⟩ := m
      simp only [memberTokens, List.cons_append, List.append_assoc]
      refine (follows_cons rfl (follows_cons rfl ?_).1).1
      exact ih _ List.mem_cons_self (hmore rest fun m hm => ih m (List.mem_cons_of_mem _ hm))

/-- No two numbers of a value stand side by side, as there is a comma or a bracket between any two.
-/
theorem separate_tokens (j : Json) : Separate j.tokens := by
  have h := @separate_tokens_append j [] ⟨List.isChain_nil, nofun⟩
  rwa [List.append_nil] at h

end Separate

/-! ### The tree -/

mutual

/-- **The tree that a value is written as.** -/
def toWritten : Json → Written
  | null => .null
  | bool b => .bool b
  | num n => .num n
  | str s => .str (some s)
  | arr items => .arr (toWrittenItems items)
  | obj members => .obj (toWrittenMembers members)

def toWrittenItems : List Json → List Written
  | [] => []
  | item :: rest => item.toWritten :: toWrittenItems rest

def toWrittenMembers : List (String × Json) → List (Option String × Written)
  | [] => []
  | (name, item) :: rest => (some name, item.toWritten) :: toWrittenMembers rest

end

section Machine

open Reader

/-- The first value of an array is read like any other. -/
theorem foldlM_arrayStart (j : Json) (stack : List Frame) :
    j.tokens.foldlM step (.arrayStart stack) =
      j.tokens.foldlM step (.value (.array [] :: stack)) := by
  obtain ⟨t, ts, htokens, ht⟩ := j.exists_tokens_eq_cons
  have hstep : step (.arrayStart stack) t = step (.value (.array [] :: stack)) t := by
    cases t with
    | closeArray => exact absurd rfl ht
    | _ => rfl
  rw [htokens, List.foldlM_cons, List.foldlM_cons, hstep]

/-- **The machine builds the tree** of a value and stops behind it. -/
theorem foldlM_tokens (j : Json) (stack : List Frame) :
    j.tokens.foldlM step (.value stack) = some (.after j.toWritten stack) := by
  -- the statement is for every stack, as the parts are read with more frames below
  induction j using Json.byParts generalizing stack with
  | null | bool | num | str => rfl
  | arr items ih =>
    have hmore : ∀ (rest : List Json), (∀ j ∈ rest, ∀ stack, j.tokens.foldlM step (.value stack) =
          some (.after j.toWritten stack)) → ∀ (v : Written) (done : List Written),
        (moreItemTokens rest).foldlM step (.after v (.array done :: stack)) =
          some (.after (.arr ((v :: done).reverse ++ toWrittenItems rest)) stack) := by
      -- behind an item, the items done so far are in the frame, the last one first
      intro rest ih
      induction rest with
      | nil =>
        intro v done
        rw [toWrittenItems, List.append_nil]
        rfl
      | cons item rest ih' =>
        intro v done
        rw [moreItemTokens, List.foldlM_append, List.foldlM_cons]
        show (item.tokens.foldlM step (.value (.array (v :: done) :: stack)) >>= fun s =>
          (moreItemTokens rest).foldlM step s) = _
        rw [ih item List.mem_cons_self, toWrittenItems]
        show (moreItemTokens rest).foldlM step _ = _
        rw [ih' (fun j hj => ih j (List.mem_cons_of_mem _ hj)), List.reverse_cons,
          List.append_assoc]
        rfl
    rw [tokens, toWritten, List.foldlM_cons]
    show (itemTokens items).foldlM step (.arrayStart stack) = _
    -- the first item has no comma in front
    cases items with
    | nil => rfl
    | cons item rest =>
      rw [itemTokens, List.foldlM_append, foldlM_arrayStart, ih item List.mem_cons_self]
      exact hmore rest (fun j hj => ih j (List.mem_cons_of_mem _ hj)) item.toWritten []
  | obj members ih =>
    have hmore : ∀ (rest : Members), (∀ m ∈ rest, ∀ stack, m.2.tokens.foldlM step (.value stack) =
          some (.after m.2.toWritten stack)) →
        ∀ (name : Option String) (v : Written) (done : List (Option String × Written)),
        (moreMemberTokens rest).foldlM step (.after v (.object done name :: stack)) =
          some (.after (.obj (((name, v) :: done).reverse ++ toWrittenMembers rest)) stack) := by
      intro rest ih
      induction rest with
      | nil =>
        intro name v done
        rw [toWrittenMembers, List.append_nil]
        rfl
      | cons m rest ih' =>
        intro name v done
        obtain ⟨name', item⟩ := m
        rw [moreMemberTokens, List.foldlM_append]
        -- the comma, the name and the colon
        show (item.tokens.foldlM step (.value (.object ((name, v) :: done) (some name') :: stack))
          >>= fun s => (moreMemberTokens rest).foldlM step s) = _
        rw [ih _ List.mem_cons_self, toWrittenMembers]
        show (moreMemberTokens rest).foldlM step _ = _
        rw [ih' (fun m hm => ih m (List.mem_cons_of_mem _ hm)), List.reverse_cons,
          List.append_assoc]
        rfl
    rw [tokens, toWritten, List.foldlM_cons]
    show (memberTokens members).foldlM step (.objectStart stack) = _
    cases members with
    | nil => rfl
    | cons m rest =>
      obtain ⟨name, item⟩ := m
      rw [memberTokens, List.foldlM_append]
      show (item.tokens.foldlM step (.value (.object [] (some name) :: stack)) >>= fun s =>
        (moreMemberTokens rest).foldlM step s) = _
      rw [ih _ List.mem_cons_self]
      exact hmore rest (fun m hm => ih m (List.mem_cons_of_mem _ hm)) (some name)
        item.toWritten []

end Machine

/-- **The tree of the compact text** of a value is the one that the value is written as. Nesting
plays no part until the value of the tree is taken. -/
theorem writtenParse?_compact (j : Json) : Written.parse? j.compact = some j.toWritten := by
  have hscan := Token.scanAll?_flatMap_spell j.separate_tokens
  rw [Written.parse?, compact, String.toList_ofList, hscan]
  show Written.ofTokens? j.tokens = _
  rw [Written.ofTokens?, foldlM_tokens]
  rfl

/-! ### The value -/

/-- **The value of the tree that a canonical value is written as** is the value itself, if it nests
within the limit. -/
theorem value?_toWritten {j : Json} (hj : j.Canonical) (room : Nat) :
    j.toWritten.value? room = if j.nesting ≤ room then some j else none := by
  induction j using Json.byParts generalizing room with
  | null | bool | num | str => exact (if_pos (Nat.zero_le _)).symm
  | arr items ih =>
    cases room with
    | zero => exact (if_neg not_nesting_arr_le_zero).symm
    | succ room =>
      -- an item has the room that its array has left
      have hitems : Written.itemValues? room (toWrittenItems items) =
          if nestingOfItems items ≤ room then some items else none := by
        have hparts := canonical_arr.mp hj
        clear hj
        induction items with
        | nil => exact (if_pos (Nat.zero_le _)).symm
        | cons item rest ih' =>
          rw [toWrittenItems, Written.itemValues?, nestingOfItems,
            ih item List.mem_cons_self (hparts item List.mem_cons_self),
            ih' (fun j hj => ih j (List.mem_cons_of_mem _ hj))
              fun j hj => hparts j (List.mem_cons_of_mem _ hj)]
          by_cases hitem : item.nesting ≤ room <;>
            by_cases hrest : nestingOfItems rest ≤ room <;> simp [hitem, hrest]
      rw [toWritten, Written.value?, hitems, nesting]
      by_cases h : nestingOfItems items ≤ room <;> simp [h]
  | obj members ih =>
    cases room with
    | zero => exact (if_neg not_nesting_obj_le_zero).symm
    | succ room =>
      obtain ⟨hasc, hparts⟩ := canonical_obj.mp hj
      have hmembers : Written.memberValues? room (toWrittenMembers members) =
          if nestingOfMembers members ≤ room then some members else none := by
        clear hj hasc
        induction members with
        | nil => exact (if_pos (Nat.zero_le _)).symm
        | cons m rest ih' =>
          obtain ⟨name, item⟩ := m
          rw [toWrittenMembers, Written.memberValues?, nestingOfMembers,
            ih _ List.mem_cons_self (hparts _ List.mem_cons_self),
            ih' (fun m hm => ih m (List.mem_cons_of_mem _ hm))
              fun m hm => hparts m (List.mem_cons_of_mem _ hm)]
          by_cases hitem : item.nesting ≤ room <;>
            by_cases hrest : nestingOfMembers rest ≤ room <;> simp [hitem, hrest]
      -- the members are in order already
      rw [toWritten, Written.value?, hmembers, nesting]
      by_cases h : nestingOfMembers members ≤ room <;> simp [h, Members.ofList_of_ascending hasc]

/-- **The compact text of a canonical value is read** as the value, if its containers nest no deeper
than the reader goes, and is refused if they do. -/
theorem parse?_compact {j : Json} (hj : j.Canonical) :
    parse? j.compact = if j.nesting ≤ maxNesting then some j else none := by
  rw [parse?, writtenParse?_compact]
  exact value?_toWritten hj maxNesting

end DocStream.Json
