import Mathlib.Algebra.Ring.Nat
import Mathlib.Data.List.Flatten

/-!
# Lists of tagged elements

An element is a tag, a length and a body of that many bytes.  This file gives the search for the
first element with a tag in the first bytes of a list, what the search looks at, and the change of
the element that it finds.
-/

namespace AmlW2

@[ext] structure Element where
  tag : UInt8
  body : List UInt8
  fits : body.length < 256

namespace Element

/-- The bytes of the tag, the length and the body. -/
def size (e : Element) : Nat := e.body.length + 2

def bytes (e : Element) : List UInt8 := e.tag :: UInt8.ofNat e.body.length :: e.body

/-- The bytes of the elements, one after the other. -/
def wire (es : List Element) : List UInt8 := es.flatMap bytes

@[simp] theorem length_bytes (e : Element) : e.bytes.length = e.size := rfl

@[simp] theorem wire_nil : wire [] = [] := rfl

@[simp] theorem wire_cons (e : Element) (es : List Element) : wire (e :: es) = e.bytes ++ wire es :=
  rfl

theorem wire_append (es es' : List Element) : wire (es ++ es') = wire es ++ wire es' :=
  List.flatMap_append

theorem toNat_length (e : Element) : (UInt8.ofNat e.body.length).toNat = e.body.length := by
  simpa using Nat.mod_eq_of_lt e.fits

/-- The bytes of an element tell where it ends. -/
theorem bytes_append_inj {e e' : Element} {tail tail' : List UInt8}
    (same : e.bytes ++ tail = e'.bytes ++ tail') : e = e' ∧ tail = tail' := by
  simp only [bytes, List.cons_append, List.cons.injEq] at same
  obtain ⟨tag, length, rest⟩ := same
  have lengths : e.body.length = e'.body.length := by
    rw [← toNat_length e, ← toNat_length e', length]
  obtain ⟨body, tails⟩ := List.append_inj rest lengths
  exact ⟨Element.ext tag body, tails⟩

theorem wire_inj {es es' : List Element} (same : wire es = wire es') : es = es' := by
  induction es generalizing es' with
  | nil =>
      cases es' with
      | nil => rfl
      | cons e' es' => cases same
  | cons e es induction =>
      cases es' with
      | nil => cases same
      | cons e' es' =>
          obtain ⟨rfl, rest⟩ := bytes_append_inj same
          rw [induction rest]

/-! ## The search -/

/-- What a search finds, and the positions of the elements whose tag and length it reads. -/
structure Search where
  found : Option Nat
  visits : List Nat

/-- An element is visited, and the search goes on behind it. -/
def Search.behind (size : Nat) (s : Search) : Search :=
  ⟨s.found.map (size + ·), 0 :: s.visits.map (size + ·)⟩

/-- The search for the first element with a tag, which ends where an element is not complete. -/
def searchFrom (tag : UInt8) : Nat → List UInt8 → Search
  | fuel + 1, t :: l :: rest =>
      if rest.length < l.toNat then ⟨none, [0]⟩
      else if t = tag then ⟨some 0, [0]⟩
      else (searchFrom tag fuel (rest.drop l.toNat)).behind (l.toNat + 2)
  | _, _ => ⟨none, []⟩

def search (tag : UInt8) (bytes : List UInt8) : Search := searchFrom tag bytes.length bytes

variable {tag : UInt8}

theorem searchFrom_of_le {fuel fuel' : Nat} {bytes : List UInt8} (enough : bytes.length ≤ fuel)
    (enough' : bytes.length ≤ fuel') : searchFrom tag fuel bytes = searchFrom tag fuel' bytes := by
  induction fuel generalizing fuel' bytes with
  | zero =>
      obtain rfl := List.length_eq_zero_iff.mp (Nat.le_zero.mp enough)
      simp [searchFrom]
  | succ fuel induction =>
      match bytes, fuel' with
      | [], _ => simp [searchFrom]
      | [t], _ => simp [searchFrom]
      | t :: l :: rest, 0 => cases enough'
      | t :: l :: rest, fuel' + 1 =>
          simp only [List.length_cons] at enough enough'
          have shorter := List.length_drop (i := l.toNat) (l := rest)
          have same : searchFrom tag fuel (rest.drop l.toNat) =
              searchFrom tag fuel' (rest.drop l.toNat) :=
            induction (by omega) (by omega)
          rw [searchFrom, searchFrom, same]

@[simp] theorem search_nil : search tag [] = ⟨none, []⟩ := rfl

@[simp] theorem search_singleton (t : UInt8) : search tag [t] = ⟨none, []⟩ := rfl

theorem search_cons (t l : UInt8) (rest : List UInt8) :
    search tag (t :: l :: rest) =
      if rest.length < l.toNat then ⟨none, [0]⟩
      else if t = tag then ⟨some 0, [0]⟩
      else (search tag (rest.drop l.toNat)).behind (l.toNat + 2) := by
  have shorter := List.length_drop (i := l.toNat) (l := rest)
  have same : searchFrom tag (rest.length + 1) (rest.drop l.toNat) =
      search tag (rest.drop l.toNat) :=
    searchFrom_of_le (by omega) (Nat.le_refl _)
  rw [search, List.length_cons, List.length_cons, searchFrom, same]

theorem zero_mem_visits (t l : UInt8) (rest : List UInt8) :
    0 ∈ (search tag (t :: l :: rest)).visits := by
  rw [search_cons]
  split
  · simp
  · split
    · simp
    · simp [Search.behind]

/-- The search in the first bytes of an element and what follows. -/
theorem search_take_bytes (e : Element) (tail : List UInt8) (w : Nat) :
    search tag ((e.bytes ++ tail).take w) =
      if w < 2 then ⟨none, []⟩
      else if w < e.size then ⟨none, [0]⟩
      else if e.tag = tag then ⟨some 0, [0]⟩
      else (search tag (tail.take (w - e.size))).behind e.size := by
  match w with
  | 0 => simp
  | 1 => simp [bytes]
  | k + 2 =>
      have cut : ((e.body ++ tail).take k).length < e.body.length ↔ k + 2 < e.size := by
        simp only [List.length_take, List.length_append, size]
        omega
      rw [if_neg (by omega), bytes, List.cons_append, List.cons_append, List.take_succ_cons,
        List.take_succ_cons, search_cons, toNat_length]
      simp only [cut]
      split
      · rfl
      · rename_i whole
        have le : e.body.length ≤ k := by
          rw [size] at whole
          omega
        have rest : ((e.body ++ tail).take k).drop e.body.length = tail.take (k + 2 - e.size) := by
          rw [List.drop_take, List.drop_left, size]
          congr 1
          omega
        rw [rest]
        rfl

/-- A search finds a complete element with the tag. -/
theorem found_spec {bytes : List UInt8} {p : Nat} (found : (search tag bytes).found = some p) :
    ∃ before l body after, bytes = before ++ tag :: l :: (body ++ after) ∧ before.length = p ∧
      body.length = l.toNat := by
  generalize bound : bytes.length = n
  induction n using Nat.strongRecOn generalizing bytes p with
  | ind n induction =>
      match bytes with
      | [] => simp at found
      | [_] => simp at found
      | t :: l :: rest =>
          rw [search_cons] at found
          split at found
          · cases found
          · rename_i whole
            split at found
            · rename_i same
              cases found
              refine ⟨[], l, rest.take l.toNat, rest.drop l.toNat, ?_, rfl, ?_⟩
              · rw [List.take_append_drop, same, List.nil_append]
              · exact List.length_take_of_le (Nat.not_lt.mp whole)
            · obtain ⟨q, later, rfl⟩ := Option.map_eq_some_iff.mp found
              have shorter : (rest.drop l.toNat).length < n := by
                rw [← bound, List.length_drop, List.length_cons, List.length_cons]
                omega
              obtain ⟨before, l', body, after, split, length, fits⟩ :=
                induction _ shorter later rfl
              refine ⟨t :: l :: (rest.take l.toNat ++ before), l', body, after, ?_, ?_, fits⟩
              · rw [List.cons_append, List.cons_append, List.append_assoc, ← split,
                  List.take_append_drop]
              · have taken := List.length_take_of_le (Nat.not_lt.mp whole)
                simp only [List.length_cons, List.length_append, taken, length]
                omega

/-- The body of the first element with the tag, if it is complete. -/
def bodyOf (tag : UInt8) (bytes : List UInt8) : Option (List UInt8) :=
  (search tag bytes).found.map fun p => (bytes.drop (p + 2)).take (bytes.getD (p + 1) 0).toNat

theorem bodyOf_of_found {bytes : List UInt8} {p : Nat} (found : (search tag bytes).found = some p) :
    ∃ before l body after, bytes = before ++ tag :: l :: (body ++ after) ∧ before.length = p ∧
      body.length = l.toNat ∧ bodyOf tag bytes = some body := by
  obtain ⟨before, l, body, after, split, rfl, fits⟩ := found_spec found
  refine ⟨before, l, body, after, split, rfl, fits, ?_⟩
  have len : bytes.getD (before.length + 1) 0 = l := by simp [split]
  have rest : bytes.drop (before.length + 2) = body ++ after := by simp [split]
  rw [bodyOf, found, Option.map_some, len, rest, ← fits, List.take_left]

/-- The elements before the first one with the tag are passed. -/
theorem found_take_wire_append (es : List Element) (tail : List UInt8) {w : Nat}
    (absent : ∀ e ∈ es, e.tag ≠ tag) (within : (wire es).length ≤ w) :
    (search tag ((wire es ++ tail).take w)).found =
      (search tag (tail.take (w - (wire es).length))).found.map ((wire es).length + ·) := by
  induction es generalizing w with
  | nil => simp
  | cons e es induction =>
      rw [wire_cons, List.length_append, length_bytes] at within
      have two : 2 ≤ e.size := Nat.le_add_left 2 _
      have passed := induction (w := w - e.size)
        (fun e' member => absent e' (List.mem_cons_of_mem e member)) (by omega)
      rw [wire_cons, List.append_assoc, search_take_bytes, if_neg (by omega), if_neg (by omega),
        if_neg (absent e List.mem_cons_self)]
      simp [Search.behind, passed, Nat.sub_sub, Function.comp_def, Nat.add_assoc]

theorem found_wire_append (es : List Element) (e : Element) (rest : List UInt8)
    (absent : ∀ e ∈ es, e.tag ≠ tag) (same : e.tag = tag) :
    (search tag (wire es ++ (e.bytes ++ rest))).found = some (wire es).length := by
  have two : 2 ≤ e.size := Nat.le_add_left 2 _
  have all := List.take_length (l := wire es ++ (e.bytes ++ rest))
  rw [← all, found_take_wire_append es _ absent (by simp), search_take_bytes]
  simp only [List.length_append, length_bytes]
  rw [if_neg (by omega), if_neg (by omega), if_pos same]
  simp

/-- The search looks at the elements alone exactly when one of them has the tag, or no tag and
length behind them are in reach. -/
theorem visits_take_wire_append (es : List Element) (tail : List UInt8) {w : Nat}
    (enough : w ≤ (wire es).length + tail.length) :
    (∀ p ∈ (search tag ((wire es ++ tail).take w)).visits, p + 2 ≤ (wire es).length) ↔
      (∃ e ∈ es, e.tag = tag) ∨ w < (wire es).length + 2 := by
  induction es generalizing w with
  | nil =>
      rw [wire_nil, List.nil_append, List.length_nil, Nat.zero_add] at *
      match w, tail with
      | 0, _ => simp
      | 1, [] => simp
      | 1, _ :: _ => simp
      | w + 2, [] => simp at enough
      | w + 2, [t] => simp at enough
      | w + 2, t :: l :: rest =>
          rw [List.take_succ_cons, List.take_succ_cons]
          constructor
          · intro all
            exact absurd (all 0 (zero_mem_visits t l _)) (Nat.not_succ_le_zero 1)
          · rintro (⟨e, member, -⟩ | short)
            · cases member
            · omega
  | cons e es induction =>
      have two : 2 ≤ e.size := Nat.le_add_left 2 _
      rw [wire_cons, List.length_append, length_bytes] at enough ⊢
      rw [List.append_assoc, search_take_bytes]
      split
      · rename_i short
        simp
        omega
      · split
        · rename_i cut
          simp
          omega
        · split
          · rename_i same
            simp [same]
            omega
          · rename_i other
            have later := induction (w := w - e.size) (by omega)
            have passed : w - e.size < (wire es).length + 2 ↔
                w < e.size + (wire es).length + 2 := by
              omega
            rw [passed] at later
            simp only [List.mem_cons, exists_eq_or_imp, other, false_or]
            rw [← later]
            simp only [Search.behind, List.mem_cons, List.mem_map, forall_eq_or_imp,
              forall_exists_index, and_imp, forall_apply_eq_imp_iff₂]
            constructor
            · intro all p member
              have := all.2 p member
              omega
            · intro all
              refine ⟨by omega, fun p member => ?_⟩
              have := all p member
              omega

/-- The first element with a tag, if it ends within some bytes. -/
def firstWithin (tag : UInt8) : Nat → List Element → Option Element
  | _, [] => none
  | w, e :: es =>
      if w < e.size then none
      else if e.tag = tag then some e
      else firstWithin tag (w - e.size) es

/-- A search that looks at the elements alone finds the first one with the tag. -/
theorem found_firstWithin (es : List Element) (tail : List UInt8) {w : Nat}
    (reach : (∃ e ∈ es, e.tag = tag) ∨ w < (wire es).length + 2) :
    (firstWithin tag w es = none ∧ (search tag ((wire es ++ tail).take w)).found = none) ∨
      ∃ before e after, es = before ++ e :: after ∧ firstWithin tag w es = some e ∧ e.tag = tag ∧
        (search tag ((wire es ++ tail).take w)).found = some (wire before).length ∧
        (wire before).length + e.size ≤ w := by
  induction es generalizing w with
  | nil =>
      left
      obtain ⟨e, member, -⟩ | short := reach
      · cases member
      · match w, tail with
        | 0, _ => exact ⟨rfl, rfl⟩
        | 1, [] => exact ⟨rfl, rfl⟩
        | 1, _ :: _ => exact ⟨rfl, rfl⟩
        | w + 2, _ => exact absurd short (by simp)
  | cons e es induction =>
      have two : 2 ≤ e.size := Nat.le_add_left 2 _
      rw [wire_cons, List.length_append, length_bytes] at reach
      rw [wire_cons, List.append_assoc, search_take_bytes, firstWithin]
      by_cases cut : w < e.size
      · left
        rw [if_pos cut, if_pos cut]
        refine ⟨rfl, ?_⟩
        split
        · rfl
        · rfl
      · have long : ¬w < 2 := by omega
        simp only [cut, long, if_false]
        by_cases same : e.tag = tag
        · right
          simp only [same, if_true]
          exact ⟨[], e, es, rfl, rfl, same, rfl, by simpa using Nat.not_lt.mp cut⟩
        · simp only [same, if_false]
          have later : (∃ e ∈ es, e.tag = tag) ∨ w - e.size < (wire es).length + 2 := by
            obtain ⟨e', member, tagged⟩ | short := reach
            · obtain rfl | member := List.mem_cons.mp member
              · exact absurd tagged same
              · exact Or.inl ⟨e', member, tagged⟩
            · right
              omega
          obtain ⟨none, missed⟩ | ⟨before, s, after, rfl, some, tagged, found, within⟩ :=
            induction later
          · left
            refine ⟨none, ?_⟩
            rw [Search.behind, missed, Option.map_none]
          · right
            refine ⟨e :: before, s, after, rfl, some, tagged, ?_, ?_⟩
            · rw [Search.behind, found, Option.map_some, wire_cons, List.length_append,
                length_bytes]
            · rw [wire_cons, List.length_append, length_bytes]
              omega

/-! ## A change in place -/

/-- A list changed at the first element with a tag in a part of it, if there is one. -/
def patchAt (tag : UInt8) (off len : Nat) (patch : List UInt8 → Nat → List UInt8)
    (buf : List UInt8) : List UInt8 :=
  (search tag ((buf.drop off).take len)).found.elim buf fun p => patch buf (off + p)

/-- The first element with a tag is changed when it is complete. -/
def editFirst (tag : UInt8) (f : Element → Element) : Nat → List Element → List Element
  | _, [] => []
  | w, e :: es =>
      if w < e.size then e :: es
      else if e.tag = tag then f e :: es
      else e :: editFirst tag f (w - e.size) es

theorem patchAt_wire {patch : List UInt8 → Nat → List UInt8} {f : Element → Element}
    (patches : ∀ before e after, e.tag = tag →
      patch (before ++ (e.bytes ++ after)) before.length = before ++ ((f e).bytes ++ after))
    (fixed : List UInt8) (w : Nat) (es : List Element) :
    patchAt tag fixed.length w patch (fixed ++ wire es) =
      fixed ++ wire (editFirst tag f w es) := by
  rw [patchAt, List.drop_left]
  induction es generalizing fixed w with
  | nil => simp [editFirst]
  | cons e es induction =>
      have two : 2 ≤ e.size := Nat.le_add_left 2 _
      rw [wire_cons, search_take_bytes, editFirst]
      by_cases cut : w < e.size
      · rw [if_pos cut, if_pos cut, wire_cons]
        split
        · rfl
        · rfl
      · rw [if_neg (by omega), if_neg cut, if_neg cut]
        split
        · rename_i same
          simpa using patches fixed e (wire es) same
        · have later := induction (fixed ++ e.bytes) (w - e.size)
          rw [List.append_assoc, List.append_assoc] at later
          rw [wire_cons, ← later, Search.behind]
          cases (search tag ((wire es).take (w - e.size))).found with
          | none => rfl
          | some p => simp [Nat.add_assoc]

/-- Which element is changed. -/
theorem getElem?_editFirst (f : Element → Element) (w : Nat) (es : List Element) (i : Nat) :
    (editFirst tag f w es)[i]? = es[i]?.map fun e =>
      if e.tag = tag ∧ tag ∉ (es.take i).map Element.tag ∧ (wire (es.take (i + 1))).length ≤ w then
        f e
      else e := by
  induction es generalizing w i with
  | nil => simp [editFirst]
  | cons e es induction =>
      have two : 2 ≤ e.size := Nat.le_add_left 2 _
      rw [editFirst]
      cases i with
      | zero =>
          by_cases cut : w < e.size
          · simp [cut, Nat.not_le.mpr cut]
          · by_cases same : e.tag = tag
            · simp [cut, same, Nat.not_lt.mp cut]
            · simp [cut, same]
      | succ i =>
          simp only [List.take_succ_cons, wire_cons, List.length_append, length_bytes,
            List.map_cons, List.mem_cons, List.getElem?_cons_succ]
          by_cases cut : w < e.size
          · have outside : ¬e.size + (wire (es.take (i + 1))).length ≤ w := by omega
            simp [cut, outside]
          · by_cases same : e.tag = tag
            · simp [cut, same]
            · have within : e.size + (wire (es.take (i + 1))).length ≤ w ↔
                  (wire (es.take (i + 1))).length ≤ w - e.size := by
                omega
              have other : tag ≠ e.tag := Ne.symm same
              simp only [cut, same, if_false, List.getElem?_cons_succ, induction, other, false_or,
                within]

/-- Elements of the same sizes take the same room. -/
theorem length_wire_congr {es es' : List Element} (sizes : es.map size = es'.map size) :
    (wire es).length = (wire es').length := by
  induction es generalizing es' with
  | nil =>
      obtain rfl := List.map_eq_nil_iff.mp sizes.symm
      rfl
  | cons e es induction =>
      cases es' with
      | nil => cases sizes
      | cons e' es' =>
          simp only [List.map_cons, List.cons.injEq] at sizes
          simp [sizes.1, induction sizes.2]

/-- A change of the first element that keeps what is told of an element keeps the list of it. -/
theorem map_editFirst {α : Type*} {g : Element → α} {f : Element → Element}
    (keeps : ∀ e, g (f e) = g e) (w : Nat) (es : List Element) :
    (editFirst tag f w es).map g = es.map g := by
  induction es generalizing w with
  | nil => rfl
  | cons e es induction =>
      rw [editFirst]
      split
      · rfl
      · split
        · simp [keeps]
        · simp [induction]

/-- Such a change leaves what is told of the first elements. -/
theorem map_take_editFirst {α : Type*} {g : Element → α} {f : Element → Element}
    (keeps : ∀ e, g (f e) = g e) (w : Nat) (es : List Element) (i : Nat) :
    ((editFirst tag f w es).take i).map g = (es.take i).map g := by
  rw [List.map_take, List.map_take, map_editFirst keeps]

/-! ## Bodies -/

theorem length_lt_of_eq {body body' : List UInt8} (same : body'.length = body.length)
    (fits : body.length < 256) : body'.length < 256 := by
  omega

/-- The body is changed, not its length. -/
def mapBody (f : List UInt8 → List UInt8) (keeps : ∀ body, (f body).length = body.length)
    (e : Element) : Element :=
  ⟨e.tag, f e.body, length_lt_of_eq (keeps e.body) e.fits⟩

theorem mapBody_tag {f : List UInt8 → List UInt8} {keeps : ∀ body, (f body).length = body.length}
    (e : Element) : (mapBody f keeps e).tag = e.tag := rfl

theorem mapBody_size {f : List UInt8 → List UInt8} {keeps : ∀ body, (f body).length = body.length}
    (e : Element) : (mapBody f keeps e).size = e.size := by
  simp [size, mapBody, keeps]

theorem mapBody_bytes {f : List UInt8 → List UInt8} {keeps : ∀ body, (f body).length = body.length}
    (e : Element) :
    (mapBody f keeps e).bytes = e.tag :: UInt8.ofNat e.body.length :: f e.body := by
  simp [bytes, mapBody, keeps]

section

variable (before after : List UInt8) (t l : UInt8) {body : List UInt8} {k : Nat}

theorem getD_length_append (body : List UInt8) (d : UInt8) :
    (before ++ t :: l :: (body ++ after)).getD (before.length + 1) d = l := by
  simp [List.getD_eq_getElem?_getD]

theorem getD_body_append (inside : k < body.length) (d : UInt8) :
    (before ++ t :: l :: (body ++ after)).getD (before.length + (k + 2)) d = body.getD k d := by
  rw [List.getD_eq_getElem?_getD, List.getD_eq_getElem?_getD,
    List.getElem?_append_right (Nat.le_add_right _ _), Nat.add_sub_cancel_left,
    List.getElem?_cons_succ, List.getElem?_cons_succ, List.getElem?_append_left inside]

theorem set_body_append (inside : k < body.length) (v : UInt8) :
    (before ++ t :: l :: (body ++ after)).set (before.length + (k + 2)) v =
      before ++ t :: l :: (body.set k v ++ after) := by
  rw [List.set_append_right _ _ (Nat.le_add_right _ _), Nat.add_sub_cancel_left,
    List.set_cons_succ, List.set_cons_succ, List.set_append_left _ _ inside]

end

end Element

end AmlW2
