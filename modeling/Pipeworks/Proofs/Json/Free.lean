import Pipeworks.Proofs.Json.Keys
import Pipeworks.Proofs.Json.Numeral

/-!
Free values: what is read of a tree without a type. The tree of a value is read as that value if its keys ascend, and
everything that is read of a text has ascending keys, integers of 64 bits, and no more containers within each other
than the reader may open.
-/

namespace Pipeworks.Json

open Keyed (putAscending)
open Text (Symbol)

theorem bind_eq_ok {ε α β : Type} {x : Except ε α} {f : α → Except ε β} {b : β} :
    x >>= f = .ok b ↔ ∃ a, x = .ok a ∧ f a = .ok b := by
  cases x with
  | error e => simp [bind, Except.bind]
  | ok a => simp [bind, Except.bind]

/-! ### The tree of a value -/

variable {j : Json} {n : Nat} {xs : List Json} {fs : List (String × Json)}

theorem toItems_ofItems {P : Json → Prop}
    (h : ∀ x ∈ xs, ∃ y, (Doc.ofJson x).toJson n = .ok y ∧ (P x → y = x)) :
    ∃ ys, Doc.toItems n (Doc.ofItems xs) = .ok ys ∧ ((∀ x ∈ xs, P x) → ys = xs) := by
  induction xs with
  | nil => exact ⟨[], rfl, fun _ => rfl⟩
  | cons x xs ih =>
      obtain ⟨y, hy, hyx⟩ := h x (by simp)
      obtain ⟨ys, hys, hyxs⟩ := ih fun x hx => h x (by simp [hx])
      refine ⟨y :: ys, ?_, fun hP => ?_⟩
      · rw [Doc.ofItems, Doc.toItems, hy]
        simp only [bind, Except.bind, hys]
        rfl
      · rw [hyx (hP x (by simp)), hyxs fun x hx => hP x (by simp [hx])]

theorem toFields_ofFields {P : Json → Prop} (gs : List (String × Json))
    (h : ∀ f ∈ fs, ∃ y, (Doc.ofJson f.2).toJson n = .ok y ∧ (P f.2 → y = f.2)) :
    ∃ fs', Doc.toFields n gs (Doc.ofFields fs) = .ok fs' ∧
      (Ascending (gs ++ fs) → (∀ f ∈ fs, P f.2) → fs' = gs ++ fs) := by
  induction fs generalizing gs with
  | nil => exact ⟨gs, rfl, fun _ _ => (List.append_nil gs).symm⟩
  | cons f fs ih =>
      obtain ⟨y, hy, hyf⟩ := h f (by simp)
      obtain ⟨fs', hfs', heq⟩ := ih (putAscending f.1 y gs) fun g hg => h g (by simp [hg])
      refine ⟨fs', ?_, fun hasc hP => ?_⟩
      · rw [Doc.ofFields, Doc.toFields]
        simp only [bind, Except.bind, hy]
        exact hfs'
      · have hput : putAscending f.1 y gs = gs ++ [f] := by
          rw [hyf (hP f (by simp))]
          refine putAscending_of_lt fun g hg => ?_
          rw [Ascending, List.map_append, List.pairwise_append] at hasc
          exact hasc.2.2 g.1 (List.mem_map_of_mem hg) f.1 (by simp)
        rw [hput, List.append_assoc, List.singleton_append] at heq
        exact heq hasc fun g hg => hP g (by simp [hg])

/-- Every value that is shallow enough can be read freely, and one whose keys ascend is read as it is. -/
theorem toJson_ofJson (h : j.depth ≤ n) :
    ∃ j', (Doc.ofJson j).toJson (n + 1) = .ok j' ∧ (j.Canonical → j' = j) := by
  induction j using structural generalizing n with
  | null => exact ⟨.null, rfl, fun _ => rfl⟩
  | bool b => exact ⟨.bool b, rfl, fun _ => rfl⟩
  | num m => exact ⟨.num m, rfl, fun _ => rfl⟩
  | str s => exact ⟨.str s, rfl, fun _ => rfl⟩
  | arr xs ih =>
      obtain ⟨n, rfl⟩ := Nat.exists_eq_succ_of_ne_zero (Nat.ne_of_gt (depth_arr_pos.trans_le h))
      obtain ⟨ys, hys, heq⟩ := toItems_ofItems (P := Canonical) fun x hx => ih x hx (depth_arr_le.mp h x hx)
      refine ⟨.arr ys, ?_, fun hcan => by rw [heq (canonical_arr.mp hcan)]⟩
      rw [Doc.ofJson, Doc.toJson, if_neg (by omega), Nat.add_sub_cancel, hys]
      rfl
  | obj fs ih =>
      obtain ⟨n, rfl⟩ := Nat.exists_eq_succ_of_ne_zero (Nat.ne_of_gt (depth_obj_pos.trans_le h))
      obtain ⟨fs', hfs', heq⟩ :=
        toFields_ofFields (P := Canonical) [] fun f hf => ih f hf (depth_obj_le.mp h f hf)
      refine ⟨.obj fs', ?_, fun hcan => ?_⟩
      · rw [Doc.ofJson, Doc.toJson, if_neg (by omega), Nat.add_sub_cancel, hfs']
        rfl
      · obtain ⟨hasc, hfields⟩ := canonical_obj.mp hcan
        rw [heq hasc hfields, List.nil_append]

/-! ### The integers of a text -/

def Number.Fits : Number → Prop
  | .int i => fitsInteger i = true
  | .float _ => True

namespace Numeral

variable {positive : Bool} {m more acc taken : Nat} {e : Int} {k : Number} {s : List Symbol}

theorem fits_scaled (h : scaled positive m e = .ok k) : k.Fits := by
  unfold scaled at h
  split at h
  · cases h
    trivial
  · cases h

theorem fits_exponent (h : exponent positive m e s = .ok k) : k.Fits := by
  rw [exponent_eq] at h
  generalize signed s = t at h
  simp only at h
  split at h
  · cases h
  · split at h
    · cases h
    · split at h
      · split at h
        · cases h
        · cases h
          trivial
      · exact fits_scaled h

theorem fits_exponentOrEnd (h : exponentOrEnd positive m e s = .ok k) : k.Fits := by
  unfold exponentOrEnd at h
  split at h
  · exact fits_exponent h
  · exact fits_exponent h
  · exact fits_scaled h

theorem fits_fraction (h : fraction positive m e s = .ok k) : k.Fits := by
  unfold fraction at h
  split at h
  · cases h
  · split_ifs at h
    exact fits_exponentOrEnd h

/-- Digits are taken as long as they fit. -/
theorem significand_lt (h : acc < limit) : (significand acc taken s).1 < limit := by
  induction s generalizing acc taken with
  | nil => exact h
  | cons x s ih =>
      rw [significand]
      split
      · exact h
      · split_ifs with hlt
        · exact ih hlt
        · exact h

theorem fits_afterInteger (hm : m < limit) (h : afterInteger positive m more s = .ok k) : k.Fits := by
  have hlimit : limit = 18446744073709551616 := rfl
  unfold afterInteger at h
  split at h
  · exact fits_fraction h
  · exact fits_exponent h
  · exact fits_exponent h
  · split_ifs at h
    · exact fits_scaled h
    · cases h
      simp only [Number.Fits, fitsInteger, Bool.and_eq_true, decide_eq_true_eq]
      omega
    · cases h
      simp only [Number.Fits, fitsInteger, Bool.and_eq_true, decide_eq_true_eq]
      omega
    · cases h
      trivial

theorem fits_unsigned (h : unsigned positive s = .ok k) : k.Fits := by
  unfold unsigned at h
  split at h
  · cases h
  · split at h
    · cases h
    · split_ifs at h
      exact fits_afterInteger (by decide) h
    · rename_i c rest _ d _ hd
      have hdigit : d < limit := by
        cases c with
        | none => simp [digit?] at hd
        | some c =>
            simp only [digit?, Option.ite_none_right_eq_some, Option.some.injEq] at hd
            have hc : c.toNat ≤ 57 := by
              have := hd.1
              simp only [Char.isDigit, Bool.and_eq_true, decide_eq_true_eq] at this
              exact this.2
            have hlimit : limit = 18446744073709551616 := rfl
            omega
      exact fits_afterInteger (significand_lt hdigit) h

theorem fits_read (h : read s = .ok k) : k.Fits := by
  unfold read at h
  split at h
  · exact fits_unsigned h
  · exact fits_unsigned h

end Numeral

namespace Doc

mutual
def Fits : Doc → Prop
  | .number (.ok n) => n.Fits
  | .array items _ => FitsItems items
  | .object members _ _ => FitsMembers members
  | _ => True
def FitsItems : List Doc → Prop
  | [] => True
  | x :: xs => Fits x ∧ FitsItems xs
def FitsMembers : List (Except SyntaxError String × Doc) → Prop
  | [] => True
  | (_, x) :: xs => Fits x ∧ FitsMembers xs
end

theorem fits_word {value : Doc} (h : value.Fits) (w : List Char) (s : List Symbol) : (word value w s).1.Fits := by
  induction w generalizing s with
  | nil => exact h
  | cons c w ih =>
      cases s with
      | nil => trivial
      | cons x s =>
          rw [word]
          split_ifs
          · exact ih s
          · trivial

theorem fits_numeral (s : List Symbol) : (numeral s).1.Fits := by
  unfold numeral
  simp only
  split
  · cases hread : Numeral.read s with
    | ok k => exact Numeral.fits_read hread
    | error e => trivial
  · trivial
  · trivial

/-- What the parser takes with so much fuel, for a value or for a part of one, has integers of 64 bits. -/
structure FitsAt (fuel : Nat) : Prop where
  parse : ∀ s, (Doc.parse fuel s).1.Fits
  items : ∀ first s, FitsItems (Doc.items fuel first s).1
  item : ∀ s, FitsItems (Doc.item fuel s).1
  members : ∀ first s, FitsMembers (Doc.members fuel first s).1
  member : ∀ s, FitsMembers (Doc.member fuel s).1

namespace FitsAt

variable {fuel : Nat}

theorem parse_succ (h : FitsAt fuel) (s : List Symbol) : (Doc.parse (fuel + 1) s).1.Fits := by
  rw [Doc.parse]
  split
  · trivial
  · exact fits_word (by trivial) _ _
  · exact fits_word (by trivial) _ _
  · exact fits_word (by trivial) _ _
  · split <;> trivial
  · rename_i r _
    have hr := h.items true r
    split <;> rename_i heq <;> rw [heq] at hr <;> exact hr
  · rename_i r _
    have hr := h.members true r
    split <;> rename_i heq <;> rw [heq] at hr <;> exact hr
  · split_ifs
    · exact fits_numeral _
    · trivial

theorem items_succ (h : FitsAt fuel) (first : Bool) (s : List Symbol) :
    FitsItems (Doc.items (fuel + 1) first s).1 := by
  rw [Doc.items]
  split
  · trivial
  · trivial
  · split_ifs
    · exact h.item _
    · split
      · trivial
      · trivial
      · exact h.item _
    · trivial

theorem item_succ (h : FitsAt fuel) (s : List Symbol) : FitsItems (Doc.item (fuel + 1) s).1 := by
  have hs := h.parse s
  rw [Doc.item]
  split <;> rename_i heq <;> rw [heq] at hs
  · exact ⟨hs, h.items false _⟩
  · exact ⟨hs, trivial⟩

theorem members_succ (h : FitsAt fuel) (first : Bool) (s : List Symbol) :
    FitsMembers (Doc.members (fuel + 1) first s).1 := by
  rw [Doc.members]
  split
  · trivial
  · trivial
  · split_ifs
    · split
      · exact h.member _
      · trivial
    · split
      · trivial
      · exact h.member _
      · trivial
      · trivial
    · trivial

theorem member_succ (h : FitsAt fuel) (s : List Symbol) : FitsMembers (Doc.member (fuel + 1) s).1 := by
  rw [Doc.member]
  split
  · trivial
  · split
    · exact ⟨trivial, trivial⟩
    · rename_i r _
      have hr := h.parse r
      split <;> rename_i heq <;> rw [heq] at hr
      · exact ⟨hr, h.members false _⟩
      · exact ⟨hr, trivial⟩
    · exact ⟨trivial, trivial⟩

end FitsAt

/-- The five functions call each other with less fuel, so they are taken together. -/
theorem fitsAt (fuel : Nat) : FitsAt fuel := by
  induction fuel with
  | zero => constructor <;> intros <;> trivial
  | succ fuel ih => exact ⟨ih.parse_succ, ih.items_succ, ih.item_succ, ih.members_succ, ih.member_succ⟩

end Doc

theorem Document.fits_ofSymbols (s : List Symbol) : (ofSymbols s).root.Fits := by
  have hroot := (Doc.fitsAt (3 * s.length + 3)).parse s
  rw [ofSymbols]
  split <;> rename_i heq <;> rw [heq] at hroot <;> exact hroot

/-! ### What is read freely -/

/-- What a reading without a type may give: integers of 64 bits, ascending keys, and at most so many containers
within each other. -/
structure Free (n : Nat) (j : Json) : Prop where
  fits : j.All Number.Fits
  canonical : j.Canonical
  shallow : j.depth ≤ n

theorem free_arr (h : ∀ x ∈ xs, x.Free n) : (Json.arr xs).Free (n + 1) where
  fits := all_arr.mpr fun x hx => (h x hx).fits
  canonical := canonical_arr.mpr fun x hx => (h x hx).canonical
  shallow := depth_arr_le.mpr fun x hx => (h x hx).shallow

theorem free_obj (hasc : Ascending fs) (h : ∀ f ∈ fs, f.2.Free n) : (Json.obj fs).Free (n + 1) where
  fits := all_obj.mpr fun f hf => (h f hf).fits
  canonical := canonical_obj.mpr ⟨hasc, fun f hf => (h f hf).canonical⟩
  shallow := depth_obj_le.mpr fun f hf => (h f hf).shallow

mutual
theorem free_toJson : ∀ (n : Nat) (d : Doc) (j : Json), d.Fits → d.toJson (n + 1) = .ok j → j.Free n
  | n, .null, j, _, h => by
      cases h
      exact ⟨trivial, trivial, Nat.zero_le n⟩
  | n, .bool b, j, _, h => by
      cases h
      exact ⟨trivial, trivial, Nat.zero_le n⟩
  | n, .number (.ok k), j, hd, h => by
      cases h
      exact ⟨hd, trivial, Nat.zero_le n⟩
  | n, .text (.ok s), j, _, h => by
      cases h
      exact ⟨trivial, trivial, Nat.zero_le n⟩
  | 0, .array items fault, j, hd, h => by
      cases h
  | n + 1, .array items fault, j, hd, h => by
      rw [Doc.toJson, if_neg (by omega), Nat.add_sub_cancel] at h
      obtain ⟨js, hjs, h⟩ := bind_eq_ok.mp h
      cases fault with
      | none =>
          cases h
          exact free_arr (free_toItems n items js hd hjs)
      | some e => cases h
  | 0, .object members fault odd, j, hd, h => by
      cases h
  | n + 1, .object members fault odd, j, hd, h => by
      rw [Doc.toJson, if_neg (by omega), Nat.add_sub_cancel] at h
      obtain ⟨fs, hfs, h⟩ := bind_eq_ok.mp h
      cases fault with
      | none =>
          cases h
          obtain ⟨hasc, hfree⟩ := free_toFields n [] members fs hd hfs .nil (by simp)
          exact free_obj hasc hfree
      | some e => cases h
theorem free_toItems : ∀ (n : Nat) (ds : List Doc) (js : List Json), Doc.FitsItems ds →
    Doc.toItems (n + 1) ds = .ok js → ∀ j ∈ js, j.Free n
  | n, [], js, _, h => by
      cases h
      simp
  | n, d :: ds, js, hd, h => by
      rw [Doc.toItems] at h
      obtain ⟨j, hj, h⟩ := bind_eq_ok.mp h
      obtain ⟨js, hjs, h⟩ := bind_eq_ok.mp h
      cases h
      exact List.forall_mem_cons.mpr ⟨free_toJson n d j hd.1 hj, free_toItems n ds js hd.2 hjs⟩
theorem free_toFields : ∀ (n : Nat) (acc : List (String × Json)) (ms : List (Except SyntaxError String × Doc))
    (fs : List (String × Json)), Doc.FitsMembers ms → Doc.toFields (n + 1) acc ms = .ok fs →
    Ascending acc → (∀ f ∈ acc, f.2.Free n) → Ascending fs ∧ ∀ f ∈ fs, f.2.Free n
  | n, acc, [], fs, _, h, hasc, hacc => by
      cases h
      exact ⟨hasc, hacc⟩
  | n, acc, (k, d) :: ms, fs, hd, h, hasc, hacc => by
      rw [Doc.toFields] at h
      obtain ⟨key, rfl, hrest⟩ := bind_eq_ok.mp h
      obtain ⟨j, hj, hrest⟩ := bind_eq_ok.mp hrest
      refine free_toFields n _ ms fs hd.2 hrest (ascending_putAscending hasc) fun f hf => ?_
      rcases mem_putAscending hf with rfl | hf
      · exact free_toJson n d j hd.1 hj
      · exact hacc f hf
end

/-! ### Whole documents -/

namespace Document

theorem decode_eq_ok {α : Type} {d : Decoder α} {doc : Document} {origin : Origin} {a : α} :
    doc.decode d origin = .ok a ↔ d (.top origin) doc.root = .ok a ∧ doc.trailing = false := by
  rw [decode, bind_eq_ok]
  cases doc.trailing with
  | true => simp [bind, Except.bind, throw, throwThe, MonadExceptOf.throw]
  | false => simp [pure, Except.pure]

/-- What is read of a text without a type nests at most 127 containers. -/
theorem free_of_decode {s : List Symbol} (h : (ofSymbols s).decode Decoder.json = .ok j) : j.Free 127 := by
  have hjson : ((ofSymbols s).root.toJson (127 + 1)).mapError DecodeError.malformed = .ok j :=
    (decode_eq_ok.mp h).1
  cases hroot : (ofSymbols s).root.toJson (127 + 1) with
  | error e => simp [hroot, Except.mapError] at hjson
  | ok j' =>
      rw [hroot] at hjson
      cases hjson
      exact free_toJson 127 _ _ (fits_ofSymbols s) hroot

theorem decode_ofJson (hcanonical : j.Canonical) (hshallow : j.depth ≤ 127) :
    (ofJson j).decode Decoder.json = .ok j := by
  obtain ⟨j', hj', heq⟩ := toJson_ofJson hshallow
  rw [heq hcanonical] at hj'
  refine decode_eq_ok.mpr ⟨?_, rfl⟩
  change ((Doc.ofJson j).toJson (127 + 1)).mapError _ = _
  rw [hj']
  rfl

end Document

end Pipeworks.Json
