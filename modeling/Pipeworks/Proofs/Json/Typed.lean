import Pipeworks.Proofs.Json.Free
import Pipeworks.Proofs.Json.Spelling

/-!
Typed reading of what was written. A decoder restores a value from a JSON value (`Decoder.Restores`) if the text of
that is legible and the decoder finds the value in its tree, at every place with room for its containers. The law
goes through lists, mappings and structures, for these field by field (`Record.Fills`), and so from the parts of a
format to its documents.
-/

namespace Pipeworks.Json

open Keyed (putAscending)

/-! ### Room for containers -/

def Place.Room (p : Place) (n : Nat) : Prop := p.origin = .text → n < p.depth

theorem Place.room_top (origin : Origin) : (Place.top origin).Room 127 := fun _ => Nat.lt_succ_self 127

theorem Place.room_kept (depth n : Nat) : (Place.mk .kept depth).Room n := fun h => nomatch h

/-- A container can be entered, and the room within is one less. -/
theorem Place.Room.enter {p : Place} {n : Nat} (h : p.Room (n + 1)) : ∃ q, p.enter = .ok q ∧ q.Room n := by
  obtain ⟨origin, depth⟩ := p
  cases origin with
  | text =>
      have hlt : n + 1 < depth := h rfl
      refine ⟨⟨.text, depth - 1⟩, ?_, fun _ => Nat.lt_sub_of_add_lt hlt⟩
      simp only [Place.enter]
      rw [if_neg (by omega)]
  | value => exact ⟨⟨.value, depth⟩, rfl, fun h => nomatch h⟩
  | kept => exact ⟨⟨.kept, depth⟩, rfl, room_kept depth n⟩

/-- What may be opened may be kept. -/
theorem Doc.keep_ofJson {p : Place} {j : Json} {n : Nat} (hp : p.Room n) (hj : j.depth ≤ n) :
    (Doc.ofJson j).keep p = .ok () := by
  obtain ⟨origin, depth⟩ := p
  cases origin with
  | text =>
      have hlt : n < depth := hp rfl
      obtain ⟨m, rfl⟩ := Nat.exists_eq_succ_of_ne_zero (Nat.ne_of_gt (Nat.zero_lt_of_lt hlt))
      obtain ⟨j', hj', -⟩ := toJson_ofJson (hj.trans (Nat.le_of_lt_succ hlt))
      simp only [keep]
      rw [hj']
  | value => rfl
  | kept => rfl

theorem Doc.height_ofJson (j : Json) : (Doc.ofJson j).height = j.depth := by
  induction j using structural with
  | null | bool | num | str => rfl
  | arr xs ih =>
      rw [Doc.ofJson, Doc.height, Json.depth]
      congr 1
      induction xs with
      | nil => rfl
      | cons x xs ihxs =>
          rw [Doc.ofItems, Doc.heightItems, Json.depthItems, ih x (by simp), ihxs fun x hx => ih x (by simp [hx])]
  | obj fs ih =>
      rw [Doc.ofJson, Doc.height, Json.depth]
      congr 1
      induction fs with
      | nil => rfl
      | cons f fs ihfs =>
          rw [Doc.ofFields, Doc.heightMembers, Json.depthFields, ih f (by simp), ihfs fun f hf => ih f (by simp [hf])]

/-! ### Values -/

namespace Decoder

variable {α β : Type} {d : Decoder α} {n : Nat} {j : Json} {a : α}

/-- From the text of `j` the decoder restores `a`, wherever `n` containers may be opened within each other. -/
structure Restores (d : Decoder α) (n : Nat) (j : Json) (a : α) : Prop where
  legible : j.Legible
  shallow : j.depth ≤ n
  reads : ∀ p : Place, p.Room n → d p (Doc.ofJson j) = .ok a

theorem Restores.writable (h : d.Restores n j a) : j.Legible ∧ j.depth ≤ n := ⟨h.legible, h.shallow⟩

def Signed64 (i : Int) : Prop := -9223372036854775808 ≤ i ∧ i ≤ 9223372036854775807

instance (i : Int) : Decidable (Signed64 i) := inferInstanceAs (Decidable (_ ∧ _))

theorem restores_int64 {i : Int} (h : Signed64 i) : int64.Restores n (.int i) i where
  legible := by
    obtain ⟨hlow, hhigh⟩ := h
    exact Number.legible_int (by simp only [fitsInteger, Bool.and_eq_true, decide_eq_true_eq]; omega)
  shallow := Nat.zero_le n
  reads p _ := by
    simp only [int64, integer, Doc.ofJson]
    exact if_pos h

theorem legible_nat {m : Nat} (h : m < 18446744073709551616) : (nat m).Legible :=
  Number.legible_int (by simp only [fitsInteger, Bool.and_eq_true, decide_eq_true_eq]; omega)

theorem restores_count {m : Nat} (h : m < 18446744073709551616) : count.Restores n (nat m) m where
  legible := legible_nat h
  shallow := Nat.zero_le n
  reads p _ := by
    simp only [count, integer, Doc.ofJson]
    rw [if_pos (by omega)]
    rfl

theorem restores_word64 {m : Nat} (h : m < 18446744073709551616) : word64.Restores n (nat m) m where
  legible := legible_nat h
  shallow := Nat.zero_le n
  reads p _ := by
    simp only [word64, integer, Doc.ofJson]
    rw [if_pos (by omega)]
    rfl

theorem restores_float {x : Float} (h : (Number.float x).Legible) : float.Restores n (.float x) x :=
  ⟨h, Nat.zero_le n, fun _ _ => rfl⟩

theorem restores_bool (b : Bool) : bool.Restores n (.bool b) b :=
  ⟨trivial, Nat.zero_le n, fun _ _ => rfl⟩

theorem restores_string (s : String) : string.Restores n (.str s) s :=
  ⟨trivial, Nat.zero_le n, fun _ _ => rfl⟩

theorem restores_variant {names : List String} {get : String → Option α} {s : String} (h : get s = some a) :
    (variant names get).Restores n (.str s) a where
  legible := trivial
  shallow := Nat.zero_le n
  reads p _ := by
    simp only [variant, Doc.ofJson, named, Except.mapError, bind, Except.bind, h]

theorem restores_json (hlegible : j.Legible) (hcanonical : j.Canonical) (hshallow : j.depth ≤ n) :
    json.Restores n j j where
  legible := hlegible
  shallow := hshallow
  reads p hp := by
    have hfree : ∀ m, j.depth ≤ m → ((Doc.ofJson j).toJson (m + 1)).mapError DecodeError.malformed = .ok j := by
      intro m hm
      obtain ⟨j', hj', heq⟩ := toJson_ofJson hm
      rw [hj', heq hcanonical]
      rfl
    obtain ⟨origin, depth⟩ := p
    cases origin with
    | text =>
        have hlt : n < depth := hp rfl
        obtain ⟨m, rfl⟩ := Nat.exists_eq_succ_of_ne_zero (Nat.ne_of_gt (Nat.zero_lt_of_lt hlt))
        exact hfree m (hshallow.trans (Nat.le_of_lt_succ hlt))
    | value | kept => exact hfree _ (Doc.height_ofJson j).ge

theorem restores_null : (option d).Restores n .null none :=
  ⟨trivial, Nat.zero_le n, fun _ _ => rfl⟩

theorem Restores.option (h : d.Restores n j a) (hj : j ≠ .null) : (Decoder.option d).Restores n j (some a) where
  legible := h.legible
  shallow := h.shallow
  reads p hp := by
    have hd := h.reads p hp
    cases j with
    | null => exact absurd rfl hj
    | _ => simp only [Decoder.option, Doc.ofJson] at hd ⊢; rw [hd]; rfl

theorem restores_ofOption {d : Decoder β} {f : β → Json} {o : Option β} (h : ∀ b ∈ o, d.Restores n (f b) b)
    (hf : ∀ b, f b ≠ .null) : (Decoder.option d).Restores n (ofOption f o) o := by
  cases o with
  | none => exact restores_null
  | some b => exact (h b rfl).option (hf b)

theorem Restores.list {d : Decoder β} {f : β → Json} {bs : List β} (h : ∀ b ∈ bs, d.Restores n (f b) b) :
    (Decoder.list d).Restores (n + 1) (.arr (bs.map f)) bs where
  legible := all_arr.mpr (List.forall_mem_map.mpr fun b hb => (h b hb).legible)
  shallow := depth_arr_le.mpr (List.forall_mem_map.mpr fun b hb => (h b hb).shallow)
  reads p hp := by
    obtain ⟨q, hq, hroom⟩ := hp.enter
    have heach : each d q (Doc.ofItems (bs.map f)) = .ok bs := by
      induction bs with
      | nil => rfl
      | cons b bs ih =>
          rw [List.map_cons, Doc.ofItems, each, (h b (by simp)).reads q hroom]
          simp only [bind, Except.bind, ih fun b hb => h b (by simp [hb])]
          rfl
    rw [Doc.ofJson, Decoder.list]
    simp only [hq, bind, Except.bind, heach]
    rfl

/-- A mapping whose keys ascend is read as it stands. -/
theorem Restores.map {d : Decoder β} {f : β → Json} {fs : List (String × β)} (hasc : Ascending fs)
    (h : ∀ e ∈ fs, d.Restores n (f e.2) e.2) :
    (Decoder.map d).Restores (n + 1) (.obj (fs.map fun e => (e.1, f e.2))) fs where
  legible := all_obj.mpr (List.forall_mem_map.mpr fun e he => (h e he).legible)
  shallow := depth_obj_le.mpr (List.forall_mem_map.mpr fun e he => (h e he).shallow)
  reads p hp := by
    obtain ⟨q, hq, hroom⟩ := hp.enter
    -- Members are put among those gathered before, so the order of the keys is needed only for all together.
    have heach : ∀ acc, eachMember d q acc (Doc.ofFields (fs.map fun e => (e.1, f e.2))) =
        .ok (fs.foldl (fun acc e => putAscending e.1 e.2 acc) acc) := by
      clear hasc
      intro acc
      induction fs generalizing acc with
      | nil => rfl
      | cons e fs ih =>
          rw [List.map_cons, Doc.ofFields, eachMember]
          simp only [bind, Except.bind, Except.mapError, (h e (by simp)).reads q hroom]
          exact ih (fun e he => h e (by simp [he])) _
    rw [Doc.ofJson, Decoder.map]
    simp only [hq, bind, Except.bind, heach, foldl_putAscending [] hasc]
    rfl

/-- What is kept first is read in a place without a limit. -/
theorem Restores.content (h : d.Restores n j a) : d (.top .kept) (Doc.ofJson j) = .ok a :=
  h.reads _ (Place.room_kept nesting n)

theorem Restores.kept (h : d.Restores n j a) : (Decoder.kept d).Restores n j a where
  legible := h.legible
  shallow := h.shallow
  reads p hp := by
    rw [Decoder.kept, Doc.keep_ofJson hp h.shallow]
    exact h.content

end Decoder

/-! ### Structures -/

@[simp] theorem join_map_some {α : Type} (o : Option α) : (o.map some).join = o := by
  cases o <;> rfl

namespace Record

variable {Draft α β : Type} {r : Record Draft α} {n : Nat} {draft draft' : Draft} {k : String}
  {fields : List (String × Option Json)} {d : Decoder β} {j : Json} {b : β}

inductive Fills (r : Record Draft α) (n : Nat) : Draft → List (String × Option Json) → Draft → Prop where
  | done (draft : Draft) : Fills r n draft [] draft
  | absent {draft draft' : Draft} {k : String} {fields : List (String × Option Json)} :
      Fills r n draft fields draft' → Fills r n draft ((k, none) :: fields) draft'
  | field {draft next draft' : Draft} {k : String} {j : Json} {fields : List (String × Option Json)} :
      j.Legible → j.depth ≤ n →
      (∀ p : Place, p.Room n → r.read k p (Doc.ofJson j) draft = some (.ok next)) →
      Fills r n next fields draft' → Fills r n draft ((k, some j) :: fields) draft'

/-- A field that is always written fills its place in the draft. -/
theorem Fills.given {set : Option β → Draft} (hd : d.Restores n j b)
    (hread : ∀ p x, r.read k p x draft = once k none d p x set)
    (hrest : Fills r n (set (some b)) fields draft') : Fills r n draft ((k, some j) :: fields) draft' := by
  refine .field hd.legible hd.shallow (fun p hp => ?_) hrest
  rw [hread, once, hd.reads p hp]
  rfl

/-- A field that may be left out fills its place if it is there. -/
theorem Fills.optional {set : Option (Option β) → Draft} {o : Option β} {f : β → Json}
    (hd : ∀ b ∈ o, d.Restores n (f b) b) (hf : ∀ b, f b ≠ .null)
    (hread : ∀ p x, r.read k p x draft = once k none (Decoder.option d) p x set) (hnone : set none = draft)
    (hrest : Fills r n (set (o.map some)) fields draft') : Fills r n draft ((k, o.map f) :: fields) draft' := by
  cases o with
  | none =>
      rw [Option.map_none, hnone] at hrest
      exact .absent hrest
  | some b => exact .given ((hd b rfl).option (hf b)) hread hrest

theorem present_some : present ((k, some j) :: fields) = (k, j) :: present fields := rfl

theorem Fills.legible (h : r.Fills n draft fields draft') : ∀ f ∈ present fields, f.2.Legible := by
  induction h with
  | done => exact fun _ hf => nomatch hf
  | absent _ ih => exact ih
  | field hj _ _ _ ih =>
      rw [present_some, List.forall_mem_cons]
      exact ⟨hj, ih⟩

theorem Fills.shallow (h : r.Fills n draft fields draft') : ∀ f ∈ present fields, f.2.depth ≤ n := by
  induction h with
  | done => exact fun _ hf => nomatch hf
  | absent _ ih => exact ih
  | field _ hj _ _ ih =>
      rw [present_some, List.forall_mem_cons]
      exact ⟨hj, ih⟩

theorem Fills.readMembers {p : Place} (h : r.Fills n draft fields draft') (hp : p.Room n) :
    r.readMembers p draft (Doc.ofFields (present fields)) = .ok draft' := by
  induction h with
  | done => rfl
  | absent _ ih => exact ih
  | field _ _ hread _ ih =>
      rw [present_some, Doc.ofFields, Record.readMembers]
      simp only [Except.mapError, bind, Except.bind, hread p hp]
      exact ih

/-- A structure is restored if its fields fill a draft of it. -/
theorem Fills.restores (blank draft : Draft) {a : α} (hblank : r.blank = blank) (h : r.Fills n blank fields draft)
    (hfinish : r.finish draft = .ok a) : r.decoder.Restores (n + 1) (.obj (present fields)) a where
  legible := all_obj.mpr h.legible
  shallow := depth_obj_le.mpr h.shallow
  reads p hp := by
    obtain ⟨q, hq, hroom⟩ := hp.enter
    rw [Doc.ofJson, Record.decoder]
    simp only [hq, bind, Except.bind, hblank, h.readMembers hroom]
    exact hfinish

theorem present_map_some (fields : List (String × Json)) :
    present (fields.map fun f => (f.1, some f.2)) = fields := by
  induction fields with
  | nil => rfl
  | cons f fields ih => rw [List.map_cons, present_some, ih]

theorem Fills.restores_all (blank draft : Draft) {fields : List (String × Json)} {a : α} (hblank : r.blank = blank)
    (h : r.Fills n blank (fields.map fun f => (f.1, some f.2)) draft) (hfinish : r.finish draft = .ok a) :
    r.decoder.Restores (n + 1) (.obj fields) a :=
  present_map_some fields ▸ h.restores blank draft hblank hfinish

end Record

/-! ### What a reading keeps -/

namespace Decoder

variable {α : Type} {d : Decoder α} {p : Place} {x : Doc}

theorem integer_eq_ok {low high i : Int} {expected : String} (h : integer low high expected p x = .ok i) :
    low ≤ i ∧ i ≤ high := by
  unfold integer at h
  split at h
  · split_ifs at h with hrange
    exact Except.ok.inj h ▸ hrange
  · cases h

theorem int64_eq_ok {i : Int} (h : int64 p x = .ok i) : Signed64 i := integer_eq_ok h

theorem count_eq_ok {m : Nat} (h : count p x = .ok m) : m < 18446744073709551616 := by
  rw [count] at h
  cases hread : integer 0 18446744073709551615 "usize" p x with
  | error e =>
      rw [hread] at h
      cases h
  | ok i =>
      rw [hread] at h
      obtain rfl := Except.ok.inj h
      have hrange := integer_eq_ok hread
      omega

theorem option_eq_ok {o : Option α} (h : option d p x = .ok o) : ∀ a ∈ o, d p x = .ok a := by
  rintro a rfl
  unfold option at h
  split at h
  · cases h
  · cases hread : d p x with
    | error e =>
        rw [hread] at h
        cases h
    | ok b =>
        rw [hread] at h
        exact congrArg Except.ok (Option.some.inj (Except.ok.inj h))

/-- What is read freely within a text nests no deeper than there was room. -/
theorem json_eq_ok {n : Nat} {j : Json} (hfits : x.Fits) (h : json ⟨.text, n + 1⟩ x = .ok j) : j.Free n := by
  cases hread : x.toJson (n + 1) with
  | error e =>
      change (x.toJson (n + 1)).mapError _ = _ at h
      rw [hread] at h
      cases h
  | ok j' =>
      change (x.toJson (n + 1)).mapError _ = _ at h
      rw [hread] at h
      obtain rfl := Except.ok.inj h
      exact free_toJson n x _ hfits hread

end Decoder

namespace Record

variable {Draft α β : Type} {r : Record Draft α} {I : Draft → Prop} {p q : Place} {draft draft' : Draft} {x : Doc}
  {a : α}

theorem once_eq_ok {name : String} {old : Option β} {d : Decoder β} {set : Option β → Draft}
    (h : once name old d p x set = some (.ok draft')) : ∃ b, d p x = .ok b ∧ draft' = set (some b) := by
  rw [once] at h
  cases hold : old.isSome with
  | true =>
      rw [if_pos hold] at h
      cases h
  | false =>
      rw [if_neg (by simp [hold])] at h
      cases hd : d p x with
      | error e =>
          rw [hd] at h
          cases h
      | ok b =>
          rw [hd] at h
          exact ⟨b, rfl, (Except.ok.inj (Option.some.inj h)).symm⟩

/-- What every field keeps is kept by all members of an object. -/
theorem readMembers_keeps (hread : ∀ key x draft draft', x.Fits → I draft → r.read key q x draft = some (.ok draft') →
    I draft') {members : List (Except SyntaxError String × Doc)} (hfits : Doc.FitsMembers members) (hdraft : I draft)
    (h : r.readMembers q draft members = .ok draft') : I draft' := by
  induction members generalizing draft with
  | nil =>
      cases h
      exact hdraft
  | cons m rest ih =>
      obtain ⟨k, x⟩ := m
      rw [readMembers] at h
      obtain ⟨key, -, h⟩ := bind_eq_ok.mp h
      cases hfield : r.read key q x draft with
      | none =>
          rw [hfield] at h
          obtain ⟨-, -, h⟩ := bind_eq_ok.mp h
          exact ih hfits.2 hdraft h
      | some result =>
          rw [hfield] at h
          obtain ⟨next, rfl, h⟩ := bind_eq_ok.mp h
          exact ih hfits.2 (hread key x draft next hfits.1 hdraft hfield) h

theorem readItems_keeps (hread : ∀ key x draft draft', x.Fits → I draft → r.read key q x draft = some (.ok draft') →
    I draft') {fault : Option (SyntaxError × SyntaxError)} {fields : List String} {items left : List Doc}
    (hfits : Doc.FitsItems items) (hdraft : I draft)
    (h : r.readItems q fault fields items draft = .ok (draft', left)) : I draft' := by
  induction fields generalizing draft items with
  | nil =>
      cases h
      exact hdraft
  | cons f fs ih =>
      cases items with
      | nil =>
          obtain ⟨-, -, h⟩ := bind_eq_ok.mp h
          cases h
          exact hdraft
      | cons x xs =>
          rw [readItems] at h
          cases hfield : r.read f q x draft with
          | none =>
              rw [hfield] at h
              exact ih hfits.2 hdraft h
          | some result =>
              rw [hfield] at h
              obtain ⟨next, rfl, h⟩ := bind_eq_ok.mp h
              exact ih hfits.2 (hread f x draft next hfits.1 hdraft hfield) h

/-- What the blank draft has and every field keeps, the draft has of which the structure is made. -/
theorem decoder_keeps (henter : p.enter = .ok q) (hblank : I r.blank)
    (hread : ∀ key x draft draft', x.Fits → I draft → r.read key q x draft = some (.ok draft') → I draft')
    (hfits : x.Fits) (h : r.decoder p x = .ok a) : ∃ draft, I draft ∧ r.finish draft = .ok a := by
  cases x with
  | object members fault odd =>
      obtain ⟨q', hq', h⟩ := bind_eq_ok.mp h
      obtain rfl := Except.ok.inj (henter.symm.trans hq')
      obtain ⟨draft, hdraft, h⟩ := bind_eq_ok.mp h
      obtain ⟨-, -, h⟩ := bind_eq_ok.mp h
      exact ⟨draft, readMembers_keeps hread hfits hblank hdraft, h⟩
  | array items fault =>
      obtain ⟨q', hq', h⟩ := bind_eq_ok.mp h
      obtain rfl := Except.ok.inj (henter.symm.trans hq')
      obtain ⟨⟨draft, left⟩, hdraft, h⟩ := bind_eq_ok.mp h
      obtain ⟨a', ha', h⟩ := bind_eq_ok.mp h
      obtain ⟨-, -, h⟩ := bind_eq_ok.mp h
      obtain rfl := Except.ok.inj h
      refine ⟨draft, readItems_keeps hread hfits hblank hdraft, ?_⟩
      cases hfinish : r.finish draft with
      | ok b =>
          rw [hfinish] at ha'
          exact congrArg Except.ok (Except.ok.inj ha')
      | error e =>
          rw [hfinish] at ha'
          cases e <;> cases ha'
  | _ => cases h

end Record

/-! ### Documents -/

namespace Decoder

variable {α : Type} {d : Decoder α} {j : Json} {a : α}

theorem Restores.decode_ofJson (h : d.Restores 127 j a) : (Document.ofJson j).decode d = .ok a :=
  Document.decode_eq_ok.mpr ⟨h.reads _ (Place.room_top .text), rfl⟩

theorem Restores.decodeText_compact (h : d.Restores 127 j a) : decodeText d j.compact = .ok a := by
  rw [decodeText, Document.ofText_compact h.legible, h.decode_ofJson]

theorem Restores.decodeBytes_pretty (h : d.Restores 127 j a) : decodeBytes d j.pretty.toUTF8 = .ok a := by
  rw [decodeBytes, Document.ofBytes_pretty h.legible, h.decode_ofJson]

end Decoder

end Pipeworks.Json
