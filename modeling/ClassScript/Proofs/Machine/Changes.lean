import ClassScript.Machine.Exec

/-!
# Changes of the store

Lists and maps change in few ways, and everything else in a store changes without touching them.
`Store.Leads` says that changes of a given kind lead from one store to another, and `Store.Evolves`
that any changes do. What every change of a kind keeps, a store keeps for as long as only such
changes are made.
-/

namespace ClassScript

namespace Store

/-- A change of the store. -/
inductive Change where
  /-- Everything but the blocks, lists and maps becomes what it is in another store. -/
  | outside (other : Store)
  /-- A new list. -/
  | newList (items : List Value)
  /-- A list has a further item. -/
  | listAdd (l : Nat) (v : Value)
  /-- An item of a list is replaced. -/
  | listSet (l i : Nat) (v : Value)
  /-- The last item of a list is dropped. -/
  | listPop (l : Nat)
  /-- A new map. -/
  | newMap
  /-- A key of a map has a value. -/
  | mapSet (m : Nat) (key value : Value)
  /-- A key is taken out of a map. -/
  | mapRemove (m : Nat) (key : Value)

/-- The store after a change. -/
def change (s : Store) : Change → Store
  | .outside other => { other with blocks := s.blocks, lists := s.lists, maps := s.maps }
  | .newList items => (s.newList items).1
  | .listAdd l v => s.listAdd l v
  | .listSet l i v => s.listSet l i v
  | .listPop l => s.listPop l
  | .newMap => s.newMap.1
  | .mapSet m key value => s.mapSet m key value
  | .mapRemove m key => s.mapRemove m key

/-- Changes of a kind, one after the other, lead from one store to another. -/
inductive Leads (may : Change → Prop) (s : Store) : Store → Prop where
  /-- No change is made. -/
  | refl : Leads may s s
  /-- A change follows. -/
  | change {t : Store} (h : Leads may s t) {c : Change} (hc : may c) : Leads may s (t.change c)

namespace Leads

variable {may may' : Change → Prop} {s t u : Store}

/-- Changes behind changes are changes. -/
theorem trans (h₁ : Leads may s t) (h₂ : Leads may t u) : Leads may s u := by
  induction h₂ with
  | refl => exact h₁
  | change _ hc ih => exact .change ih hc

/-- Changes of a kind are changes of a wider kind. -/
theorem mono (h : Leads may s t) (hm : ∀ c, may c → may' c) : Leads may' s t := by
  induction h with
  | refl => exact .refl
  | change _ hc ih => exact .change ih (hm _ hc)

/-- What each change of a kind keeps is kept by all of them. -/
theorem keeps {P : Store → Prop} (h : Leads may s t) (hs : P s)
    (step : ∀ u c, may c → P u → P (u.change c)) : P t := by
  induction h with
  | refl => exact hs
  | change _ hc ih => exact step _ _ hc ih

end Leads

/-- Any changes lead from one store to another. -/
abbrev Evolves (s t : Store) : Prop := Leads (fun _ => True) s t

namespace Evolves

variable {s t : Store}

/-- A single change. -/
theorem of_change (s : Store) (c : Change) : s.Evolves (s.change c) := .change .refl trivial

/-- A change that leaves the blocks, lists and maps as they are. -/
theorem of_outside (blocks : t.blocks = s.blocks) (lists : t.lists = s.lists)
    (maps : t.maps = s.maps) : s.Evolves t := by
  have e : s.change (.outside t) = t := by
    simp only [change, ← blocks, ← lists, ← maps]
  exact e ▸ .of_change s _

end Evolves

/-- A store that changes have made out of one with no more than scopes. -/
def Made (s : Store) : Prop := ∃ es : Environments, Evolves { environments := es } s

/-- A store that changes have made stays so through further changes. -/
theorem Made.evolves {s t : Store} (hs : s.Made) (h : s.Evolves t) : t.Made :=
  hs.imp fun _ hs => hs.trans h

end Store

end ClassScript
