import Mathlib.Algebra.Notation.Defs
import Mathlib.Data.List.Infix

/-!
# The text of a charger position

`json.dump` with `indent=2` writes the four numbers of a position behind fixed texts, and
`json.load` takes them out again.  What the recharger relies on is `Json`: loading undoes
dumping, and a text cut anywhere is refused, its last character being the brace that
closes the object.

    load (dump p) = p                       (parse_render)
    load of less than dump p fails          (parse_take)
-/

namespace AgvPro

/-! ## Positions -/

/-- `json_data`; also the pose of a message on `/charger_position_update`. -/
structure ChargerPosition (F : Type) where
  p_x : F
  p_y : F
  orien_z : F
  orien_w : F
deriving DecidableEq

/-- A document, as far as anything reads it: the numbers it has under the four keys. -/
structure Document (F : Type) where
  p_x : Option F
  p_y : Option F
  orien_z : Option F
  orien_w : Option F
deriving DecidableEq

variable {F : Type}

def ChargerPosition.document (p : ChargerPosition F) : Document F :=
  ⟨some p.p_x, some p.p_y, some p.orien_z, some p.orien_w⟩

/-- All four subscripts; a missing key raises. -/
def Document.position? (d : Document F) : Option (ChargerPosition F) := do
  return ⟨← d.p_x, ← d.p_y, ← d.orien_z, ← d.orien_w⟩

@[simp] theorem position?_document (p : ChargerPosition F) : p.document.position? = some p := rfl

theorem document_of_position? {d : Document F} {p : ChargerPosition F}
    (h : d.position? = some p) : d = p.document := by
  obtain ⟨x, y, z, w⟩ := d
  simp only [Document.position?, Option.bind_eq_bind, Option.bind_eq_some_iff, Option.pure_def,
    Option.some.injEq] at h
  obtain ⟨x, rfl, y, rfl, z, rfl, w, rfl, rfl⟩ := h
  rfl

/-- `json.dump` of a position and `json.load` of a text. -/
structure Json (F : Type) where
  dump : ChargerPosition F → List Char
  load : List Char → Option (Document F)
  load_dump : ∀ p, load (dump p) = some p.document
  load_truncated : ∀ p n, n < (dump p).length → load ((dump p).take n) = none

/-! ## The layout -/

/-- A character that may stand in a number: no comma, line end or brace. -/
def plain (c : Char) : Bool := !([',', '\n', '\x7b', '\x7d'].contains c)

/-- How numbers are written. -/
structure NumberText (F : Type) where
  repr : F → List Char
  parse : List Char → Option F
  parse_repr : ∀ x, parse (repr x) = some x
  repr_plain : ∀ x, ∀ c ∈ repr x, plain c = true

/-- The texts before the four numbers. -/
def keys : List (List Char) :=
  ["\x7b\n  \"p_x\": ".toList, ",\n  \"p_y\": ".toList, ",\n  \"orien_z\": ".toList,
    ",\n  \"orien_w\": ".toList]

/-- The text behind them. -/
def closing : List Char := "\n\x7d".toList

variable (t : NumberText F)

def renderFields : List (List Char) → List F → List Char
  | k :: ks, x :: xs => k ++ t.repr x ++ renderFields ks xs
  | _, _ => closing

/-- The numbers behind the given texts, and what follows. -/
def parseFields : List (List Char) → List Char → Option (List F × List Char)
  | [], s => some ([], s)
  | k :: ks, s => do
    let s ← s.dropPrefix? k
    let x ← t.parse (s.takeWhile plain)
    let (xs, rest) ← parseFields ks (s.dropWhile plain)
    return (x :: xs, rest)

def renderPosition (p : ChargerPosition F) : List Char :=
  renderFields t keys [p.p_x, p.p_y, p.orien_z, p.orien_w]

def parsePosition (s : List Char) : Option (Document F) :=
  match parseFields t keys s with
  | some ([x, y, z, w], rest) => if rest = closing then some ⟨x, y, z, w⟩ else none
  | _ => none

/-! ## Round trip -/

/-- No number goes on into the next fixed text. -/
theorem takeWhile_repr (x : F) {s : List Char} (hs : s.head?.map plain = some false) :
    (t.repr x ++ s).takeWhile plain = t.repr x ∧ (t.repr x ++ s).dropWhile plain = s := by
  rw [List.takeWhile_append_of_pos (t.repr_plain x), List.dropWhile_append_of_pos (t.repr_plain x)]
  cases s with
  | nil => cases hs
  | cons c s =>
    have hc : plain c = false := Option.some.inj hs
    simp [hc]

theorem dropPrefix?_append (k s : List Char) : (k ++ s).dropPrefix? k = some s :=
  List.dropPrefix?_eq_some_iff.mpr ⟨k, rfl, beq_self_eq_true k⟩

theorem head?_renderFields (ks : List (List Char)) (xs : List F)
    (hks : ∀ k ∈ ks, k.head?.map plain = some false) :
    (renderFields t ks xs).head?.map plain = some false := by
  cases ks with
  | nil => rfl
  | cons k ks =>
    cases xs with
    | nil => rfl
    | cons x xs =>
      have hk := hks k List.mem_cons_self
      cases k with
      | nil => cases hk
      | cons c k => exact hk

theorem parseFields_render (ks : List (List Char)) (xs : List F) (hlen : ks.length = xs.length)
    (hks : ∀ k ∈ ks, k.head?.map plain = some false) :
    parseFields t ks (renderFields t ks xs) = some (xs, closing) := by
  induction ks generalizing xs with
  | nil =>
    obtain rfl := List.eq_nil_of_length_eq_zero hlen.symm
    rfl
  | cons k ks ih =>
    cases xs with
    | nil => cases hlen
    | cons x xs =>
      have hks' : ∀ k ∈ ks, k.head?.map plain = some false :=
        fun k hk => hks k (List.mem_cons_of_mem _ hk)
      obtain ⟨htake, hdrop⟩ := takeWhile_repr t x (head?_renderFields t ks xs hks')
      simp only [parseFields, renderFields, List.append_assoc, dropPrefix?_append,
        Option.bind_eq_bind, Option.bind_some, htake, hdrop, t.parse_repr,
        ih xs (Nat.succ.inj hlen) hks', Option.pure_def]

theorem keys_head : ∀ k ∈ keys, k.head?.map plain = some false := by decide

theorem parse_render (p : ChargerPosition F) :
    parsePosition t (renderPosition t p) = some p.document := by
  unfold parsePosition renderPosition
  rw [parseFields_render t keys _ rfl keys_head]
  rfl

/-! ## Truncation -/

theorem parseFields_suffix (ks : List (List Char)) (s rest : List Char) (xs : List F)
    (h : parseFields t ks s = some (xs, rest)) : rest <:+ s := by
  induction ks generalizing s xs with
  | nil =>
    obtain ⟨-, rfl⟩ := Prod.mk.inj (Option.some.inj h)
    exact List.suffix_rfl
  | cons k ks ih =>
    simp only [parseFields, Option.bind_eq_bind, Option.bind_eq_some_iff, Option.pure_def,
      Option.some.injEq, Prod.exists, Prod.mk.injEq] at h
    obtain ⟨s1, hs1, x, -, xs', rest', hrest, -, rfl⟩ := h
    obtain ⟨k', rfl, -⟩ := List.dropPrefix?_eq_some_iff.mp hs1
    exact ((ih _ _ hrest).trans (List.dropWhile_suffix _)).trans (List.suffix_append _ _)

/-- A position is read only from a text that closes the object. -/
theorem brace_of_parse (s : List Char) (d : Document F) (h : parsePosition t s = some d) :
    '\x7d' ∈ s := by
  unfold parsePosition at h
  split at h
  · next x y z w rest hfields =>
    split_ifs at h with hrest
    rw [hrest] at hfields
    exact (parseFields_suffix t _ _ _ _ hfields).mem (by decide)
  · cases h

/-- The closing brace is the only one behind the first text, and the last character. -/
theorem renderFields_brace (ks : List (List Char)) (xs : List F) (hks : ∀ k ∈ ks, '\x7d' ∉ k) :
    ∃ body, renderFields t ks xs = body ++ ['\x7d'] ∧ '\x7d' ∉ body := by
  induction ks generalizing xs with
  | nil => exact ⟨['\n'], rfl, by decide⟩
  | cons k ks ih =>
    cases xs with
    | nil => exact ⟨['\n'], rfl, by decide⟩
    | cons x xs =>
      obtain ⟨body, hbody, hno⟩ := ih xs fun k hk => hks k (List.mem_cons_of_mem _ hk)
      refine ⟨k ++ t.repr x ++ body, by simp [renderFields, hbody], ?_⟩
      have hx : '\x7d' ∉ t.repr x := fun h => absurd (t.repr_plain x _ h) (by decide)
      simp only [List.mem_append, not_or]
      exact ⟨⟨hks k List.mem_cons_self, hx⟩, hno⟩

theorem parse_take (p : ChargerPosition F) (n : Nat) (hn : n < (renderPosition t p).length) :
    parsePosition t ((renderPosition t p).take n) = none := by
  obtain ⟨body, hbody, hno⟩ := renderFields_brace t keys [p.p_x, p.p_y, p.orien_z, p.orien_w]
    (by decide)
  have hrender : renderPosition t p = body ++ ['\x7d'] := hbody
  rw [hrender, List.length_append, List.length_singleton] at hn
  rw [hrender, List.take_append_of_le_length (by omega), Option.eq_none_iff_forall_ne_some]
  intro d h
  exact hno (List.mem_of_mem_take (brace_of_parse t _ d h))

/-- The layout is all that the recharger relies on. -/
def NumberText.json : Json F where
  dump := renderPosition t
  load := parsePosition t
  load_dump := parse_render t
  load_truncated := parse_take t

/-- Two of the numbers there are. -/
inductive UnitFloat where
  | zero
  | one
deriving DecidableEq

instance : Zero UnitFloat := ⟨.zero⟩
instance : One UnitFloat := ⟨.one⟩

/-- As `json.dump` writes floats. -/
def unitText : NumberText UnitFloat where
  repr
    | .zero => "0.0".toList
    | .one => "1.0".toList
  parse s := if s = "0.0".toList then some .zero else if s = "1.0".toList then some .one else none
  parse_repr x := by cases x <;> decide
  repr_plain x := List.all_eq_true.mp (by cases x <;> decide)

example : unitText.json.dump ⟨.zero, .one, .zero, .one⟩ =
    "\x7b\n  \"p_x\": 0.0,\n  \"p_y\": 1.0,\n".toList ++
      "  \"orien_z\": 0.0,\n  \"orien_w\": 1.0\n\x7d".toList := by
  decide +kernel

end AgvPro
