import Scriptlet.Scope

/-!
# What the operations on scopes do

One equation for each operation and each way of looking at a store: `bound?`, `parent?` and the
number of scopes.  With them no later proof has to look at the array behind a store.

* `Bindings.find?_put`, `Store.bound?_define` : a declaration gives its name its value and changes
  nothing else;
* `Store.bound?_add`, `Store.parent?_add` : a new scope is empty and leaves the others alone;
* `Store.bound?_drop`, `Store.parent?_drop` : neither is seen any more once it is removed;
* `Store.resolve?_bound` : a name is bound in the scope where it is found;
* `Store.Linked` : a chain of scopes, each younger than its parent, up to one without parent;
* `Store.Ordered` : all chains of a store are of this kind.
-/

namespace Scriptlet

namespace Bindings

@[simp]
theorem find?_nil (name : String) : find? [] name = none := rfl

theorem find?_cons (first : String) (old : Value) (rest : Bindings) (other : String) :
    find? ((first, old) :: rest) other = if other = first then some old else rest.find? other := by
  rw [find?, List.lookup_cons]
  by_cases h : other = first
  · simp [h]
  · have hne : (other == first) = false := beq_eq_false_iff_ne.2 h
    simp [hne, h, find?]

theorem find?_put (bindings : Bindings) (name other : String) (value : Value) :
    (bindings.put name value).find? other =
      if other = name then some value else bindings.find? other := by
  induction bindings with
  | nil => rw [put, find?_cons]
  | cons binding rest ih =>
    obtain ⟨first, old⟩ := binding
    simp only [put]
    split
    · rename_i h
      subst h
      simp only [find?_cons]
      split <;> rfl
    · rename_i h
      simp only [find?_cons, ih]
      by_cases ho : other = first
      · simp [ho, h]
      · simp [ho]

end Bindings

namespace Store

variable (store : Store) (id other : ScopeId) (name : String) (value : Value)

/-! ### Declaring -/

@[simp]
theorem size_define : (store.define id name value).scopes.size = store.scopes.size := by
  simp [define]

@[simp]
theorem parent?_define : (store.define id name value).parent? other = store.parent? other := by
  simp only [parent?, define, Array.getElem?_modify]
  split
  · cases store.scopes[other]? <;> rfl
  · rfl

theorem bound?_define (h : id < store.scopes.size) (found : String) :
    (store.define id name value).bound? other found =
      if other = id ∧ found = name then some value else store.bound? other found := by
  simp only [bound?, define, Array.getElem?_modify]
  by_cases ho : id = other
  · subst ho
    simp [Array.getElem?_eq_getElem h, Bindings.find?_put]
  · simp [ho, Ne.symm ho]

theorem define_of_size_le (h : store.scopes.size ≤ id) : store.define id name value = store := by
  have hscopes : (store.define id name value).scopes = store.scopes := by
    simp only [define]
    apply Array.ext_getElem?
    intro k
    rw [Array.getElem?_modify]
    split
    · rename_i hk
      rw [Array.getElem?_eq_none (hk ▸ h)]; rfl
    · rfl
  cases store
  exact congrArg Store.mk hscopes

/-! ### New scopes -/

@[simp]
theorem size_add (parent : Option ScopeId) :
    (store.add parent).scopes.size = store.scopes.size + 1 := by
  simp [add]

theorem getElem?_add (parent : Option ScopeId) :
    (store.add parent).scopes[other]? =
      if other = store.nextId then some { parent } else store.scopes[other]? := by
  simp only [add, nextId, Array.getElem?_push]
  rfl

theorem parent?_add (parent : Option ScopeId) :
    (store.add parent).parent? other =
      if other = store.nextId then parent else store.parent? other := by
  simp only [parent?, getElem?_add]
  split <;> rfl

theorem parent?_add_of_lt (parent : Option ScopeId) (h : other < store.scopes.size) :
    (store.add parent).parent? other = store.parent? other := by
  have hne : other ≠ store.nextId := Nat.ne_of_lt h
  rw [parent?_add, if_neg hne]

@[simp]
theorem bound?_add (parent : Option ScopeId) :
    (store.add parent).bound? other name = store.bound? other name := by
  simp only [bound?, getElem?_add]
  split
  · rename_i h
    rw [h, nextId, Array.getElem?_eq_none (Nat.le_refl _)]; rfl
  · rfl

@[simp]
theorem size_drop : store.drop.scopes.size = store.scopes.size - 1 := by
  simp [drop]

theorem getElem?_drop :
    store.drop.scopes[other]? =
      if other < store.scopes.size - 1 then store.scopes[other]? else none := by
  simp only [drop, Array.getElem?_pop]

theorem parent?_drop :
    store.drop.parent? other =
      if other < store.scopes.size - 1 then store.parent? other else none := by
  simp only [parent?, getElem?_drop]
  split <;> rfl

theorem bound?_drop :
    store.drop.bound? other name =
      if other < store.scopes.size - 1 then store.bound? other name else none := by
  simp only [bound?, getElem?_drop]
  split <;> rfl

theorem parent?_of_size_le (h : store.scopes.size ≤ id) : store.parent? id = none := by
  simp [parent?, Array.getElem?_eq_none h]

theorem bound?_of_size_le (h : store.scopes.size ≤ id) : store.bound? id name = none := by
  simp [bound?, Array.getElem?_eq_none h]

/-! ### Finding names -/

variable {store id name}

theorem lt_size_of_bound (h : (store.bound? other name).isSome) : other < store.scopes.size := by
  apply Nat.lt_of_not_le
  intro hn
  rw [bound?_of_size_le _ _ _ hn] at h
  cases h

theorem resolve?_bound {home : ScopeId} (h : store.resolve? id name = some home) :
    (store.bound? home name).isSome := by
  simpa using List.find?_some h

/-! ### Chains -/

/-- The scopes from one to a scope without parent, each with its parent behind it.  A parent is older
than its children. -/
inductive Linked (store : Store) : ScopeId → List ScopeId → Prop
  | root {id : ScopeId} (hlt : id < store.scopes.size) (hroot : store.parent? id = none) :
    Linked store id [id]
  | child {id parent : ScopeId} {ids : List ScopeId} (hlt : id < store.scopes.size)
    (hparent : store.parent? id = some parent) (holder : parent < id) (h : Linked store parent ids) :
    Linked store id (id :: ids)

namespace Linked

variable {after : Store} {ids : List ScopeId}

theorem lt_size (h : store.Linked id ids) : id < store.scopes.size := by
  cases h with
  | root hlt => exact hlt
  | child hlt => exact hlt

theorem le_of_mem (h : store.Linked id ids) : ∀ other ∈ ids, other ≤ id := by
  induction h with
  | root => exact fun other hother => Nat.le_of_eq (List.mem_singleton.1 hother)
  | child _ _ holder _ ih =>
    intro other hother
    rcases List.mem_cons.1 hother with rfl | hother
    · exact Nat.le_refl _
    · exact Nat.le_trans (ih other hother) (Nat.le_of_lt holder)

theorem lt_size_of_mem (h : store.Linked id ids) : ∀ other ∈ ids, other < store.scopes.size :=
  fun other hother => Nat.lt_of_le_of_lt (h.le_of_mem other hother) h.lt_size

theorem nodup (h : store.Linked id ids) : ids.Nodup := by
  induction h with
  | root => exact List.pairwise_singleton _ _
  | child _ _ holder h ih =>
    refine List.nodup_cons.2 ⟨fun hmem => ?_, ih⟩
    exact absurd holder (Nat.not_lt_of_le (h.le_of_mem _ hmem))

/-- The scope itself is the first one. -/
theorem exists_cons (h : store.Linked id ids) : ∃ rest, ids = id :: rest := by
  cases h with
  | root => exact ⟨[], rfl⟩
  | child => exact ⟨_, rfl⟩

/-- Only the scopes up to the one at hand count. -/
theorem congr (h : store.Linked id ids) (hsize : store.scopes.size ≤ after.scopes.size)
    (hparent : ∀ other ≤ id, after.parent? other = store.parent? other) : after.Linked id ids := by
  induction h with
  | root hlt hroot =>
    exact .root (Nat.lt_of_lt_of_le hlt hsize) ((hparent _ (Nat.le_refl _)).trans hroot)
  | child hlt hp holder _ ih =>
    refine .child (Nat.lt_of_lt_of_le hlt hsize) ((hparent _ (Nat.le_refl _)).trans hp) holder ?_
    exact ih fun other hother => hparent other (Nat.le_trans hother (Nat.le_of_lt holder))

theorem add (h : store.Linked id ids) :
    (store.add (some id)).Linked store.nextId (store.nextId :: ids) := by
  have hlt := h.lt_size
  refine .child ?_ (by rw [parent?_add, if_pos rfl]) hlt (h.congr ?_ fun other hother => ?_)
  · rw [size_add]; exact Nat.lt_succ_self _
  · rw [size_add]; exact Nat.le_succ _
  · exact parent?_add_of_lt _ _ _ (Nat.lt_of_le_of_lt hother hlt)

theorem chainUpTo (h : store.Linked id ids) :
    ∀ bound, id < bound → store.chainUpTo bound id = ids := by
  induction h with
  | root hlt hroot =>
    intro bound hbound
    cases bound with
    | zero => exact absurd hbound (Nat.not_lt_zero _)
    | succ bound => rw [Store.chainUpTo, hroot]
  | child hlt hparent holder _ ih =>
    intro bound hbound
    cases bound with
    | zero => exact absurd hbound (Nat.not_lt_zero _)
    | succ bound =>
      rw [Store.chainUpTo, hparent]
      exact congrArg _ (ih bound (Nat.lt_of_lt_of_le holder (Nat.le_of_lt_succ hbound)))

theorem chain (h : store.Linked id ids) : store.chain id = ids := h.chainUpTo _ h.lt_size

end Linked

/-- Every scope is younger than its parent. -/
def Ordered (store : Store) : Prop := ∀ id parent, store.parent? id = some parent → parent < id

theorem Ordered.congr {after : Store} (h : store.Ordered)
    (hparent : ∀ id, after.parent? id = store.parent? id) : after.Ordered := by
  intro id parent hid
  rw [hparent] at hid
  exact h id parent hid

theorem Ordered.add (h : store.Ordered) {parent : Option ScopeId}
    (hparent : ∀ id ∈ parent, id < store.scopes.size) : (store.add parent).Ordered := by
  intro id older hid
  rw [parent?_add] at hid
  split at hid
  · rename_i hnew
    rw [hnew]
    exact hparent older hid
  · exact h id older hid

theorem Ordered.exists_linked (h : store.Ordered) (hlt : id < store.scopes.size) :
    ∃ ids, store.Linked id ids := by
  induction id using Nat.strongRecOn with
  | ind id ih =>
    cases hparent : store.parent? id with
    | none => exact ⟨[id], .root hlt hparent⟩
    | some parent =>
      have holder := h id parent hparent
      obtain ⟨ids, hids⟩ := ih parent holder (Nat.lt_trans holder hlt)
      exact ⟨id :: ids, .child hlt hparent holder hids⟩

end Store

end Scriptlet
