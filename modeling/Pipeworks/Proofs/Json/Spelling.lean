import Pipeworks.Proofs.Json.Numeral
import Pipeworks.Proofs.Json.Quoted
import Pipeworks.Proofs.Json.Shape

/-!
The texts of a value: those that a printer may write, with gaps between the symbols as it likes. Both printers write
texts of their value, and the parser finds in every text of a value the tree of that value, whatever follows.
-/

namespace Pipeworks.Json

open Text (Symbol symbols)

abbrev Legible (j : Json) : Prop := j.All Number.Legible

/-! ### Texts -/

def Gap (g : List Char) : Prop := ∀ c ∈ g, isGap (some c) = true

/-- What a text may be of: a value, or what follows the first item or the first field up to the bracket. -/
inductive Part where
  | value (j : Json)
  | items (xs : List Json)
  | fields (fs : List (String × Json))

inductive Spells : Part → List Char → Prop where
  | wordNull : Spells (.value .null) "null".toList
  | wordTrue : Spells (.value (.bool true)) "true".toList
  | wordFalse : Spells (.value (.bool false)) "false".toList
  | num {n : Number} : n.Legible → Spells (.value (.num n)) n.chars
  | str (s : String) : Spells (.value (.str s)) (quoted s)
  | noItems : Spells (.value (.arr [])) ['[', ']']
  | array {x : Json} {xs : List Json} {g cs ds : List Char} :
      Gap g → Spells (.value x) cs → Spells (.items xs) ds →
      Spells (.value (.arr (x :: xs))) ('[' :: (g ++ (cs ++ ds)))
  | noFields : Spells (.value (.obj [])) ['{', '}']
  | object {k : String} {v : Json} {fs : List (String × Json)} {g g' cs ds : List Char} :
      Gap g → Gap g' → Spells (.value v) cs → Spells (.fields fs) ds →
      Spells (.value (.obj ((k, v) :: fs))) ('{' :: (g ++ (quoted k ++ ':' :: (g' ++ (cs ++ ds)))))
  | lastItem {g : List Char} : Gap g → Spells (.items []) (g ++ [']'])
  | nextItem {x : Json} {xs : List Json} {g cs ds : List Char} :
      Gap g → Spells (.value x) cs → Spells (.items xs) ds →
      Spells (.items (x :: xs)) (',' :: (g ++ (cs ++ ds)))
  | lastField {g : List Char} : Gap g → Spells (.fields []) (g ++ ['}'])
  | nextField {k : String} {v : Json} {fs : List (String × Json)} {g g' cs ds : List Char} :
      Gap g → Gap g' → Spells (.value v) cs → Spells (.fields fs) ds →
      Spells (.fields ((k, v) :: fs)) (',' :: (g ++ (quoted k ++ ':' :: (g' ++ (cs ++ ds)))))

variable {g cs : List Char} {j : Json} {r s t : List Symbol} {fuel : Nat}

/-! ### Gaps -/

theorem gap_nil : Gap [] := by simp [Gap]

theorem gap_space : Gap [' '] := by simp [Gap, isGap]

theorem gap_newline (indent : Nat) : Gap (newline indent) := by
  intro c hc
  rcases List.mem_cons.mp hc with rfl | hc
  · rfl
  · rw [(List.mem_replicate.mp hc).2]
    rfl

theorem skipGap_append (hg : Gap g) (s : List Symbol) : skipGap (g.map some ++ s) = skipGap s := by
  induction g with
  | nil => rfl
  | cons c g ih =>
      rw [List.map_cons, List.cons_append, skipGap, List.dropWhile_cons_of_pos (hg c (by simp))]
      exact ih fun c hc => hg c (by simp [hc])

theorem skipGap_cons {x : Symbol} (hx : isGap x = false) (s : List Symbol) : skipGap (x :: s) = x :: s := by
  rw [skipGap, List.dropWhile_cons_of_neg (by simp [hx])]

theorem skipGap_head (hg : Gap g) {x : Symbol} (hx : isGap x = false) (s : List Symbol) :
    skipGap (g.map some ++ x :: s) = x :: s := by
  rw [skipGap_append hg, skipGap_cons hx]

theorem isLetter_of_isGap {c : Char} (hc : isGap (some c) = true) : Numeral.isLetter c = false := by
  simp only [isGap, Bool.or_eq_true, beq_iff_eq] at hc
  rcases hc with ((rfl | rfl) | rfl) | rfl <;> decide

theorem isGap_of_isLetter {c : Char} (hc : Numeral.isLetter c = true) : isGap (some c) = false :=
  Bool.eq_false_iff.mpr fun hgap => absurd (hc.symm.trans (isLetter_of_isGap hgap)) (by decide)

theorem ended_gap (hg : Gap g) (hs : Numeral.Ended s) : Numeral.Ended (g.map some ++ s) := by
  cases g with
  | nil => exact hs
  | cons c g => exact isLetter_of_isGap (hg c (by simp))

/-- What follows an item or a field is no part of a numeral. -/
theorem Spells.ended_items {xs : List Json} (h : Spells (.items xs) cs) (r : List Symbol) :
    Numeral.Ended (cs.map some ++ r) := by
  cases h with
  | lastItem hg =>
      rw [List.map_append, List.append_assoc]
      exact ended_gap hg rfl
  | nextItem => rfl

theorem Spells.ended_fields {fs : List (String × Json)} (h : Spells (.fields fs) cs) (r : List Symbol) :
    Numeral.Ended (cs.map some ++ r) := by
  cases h with
  | lastField hg =>
      rw [List.map_append, List.append_assoc]
      exact ended_gap hg rfl
  | nextField => rfl

/-- No text of a value begins with a gap or a closing bracket. -/
theorem Spells.head (h : Spells (.value j) cs) :
    ∃ c cs', cs = c :: cs' ∧ isGap (some c) = false ∧ c ≠ ']' := by
  cases h with
  | wordNull => exact ⟨_, _, rfl, by decide⟩
  | wordTrue => exact ⟨_, _, rfl, by decide⟩
  | wordFalse => exact ⟨_, _, rfl, by decide⟩
  | num h =>
      obtain ⟨x, t, heq, -⟩ := Numeral.head_of_read h.read
      obtain ⟨c, cs', hcs, -, -⟩ := List.map_eq_cons_iff.mp heq
      have hletter := h.letters c (by simp [hcs])
      refine ⟨c, cs', hcs, isGap_of_isLetter hletter, ?_⟩
      rintro rfl
      exact absurd hletter (by decide)
  | str s => exact ⟨_, _, rfl, by decide⟩
  | noItems => exact ⟨_, _, rfl, by decide⟩
  | array => exact ⟨_, _, rfl, by decide⟩
  | noFields => exact ⟨_, _, rfl, by decide⟩
  | object => exact ⟨_, _, rfl, by decide⟩

/-! ### The parser on a text -/

namespace Doc

theorem parse_numeral {x : Symbol} (hx : x = some '-' ∨ (Numeral.digit? x).isSome = true)
    (hskip : skipGap s = x :: t) : parse (fuel + 1) s = numeral (x :: t) := by
  have hne : ∀ c : Char, Numeral.digit? (some c) = none → c ≠ '-' → x ≠ some c := by
    rintro c hc hdash rfl
    rcases hx with hx | hx
    · exact hdash (Option.some.inj hx)
    · rw [hc] at hx
      simp at hx
  rw [parse, hskip]
  split
  · simp_all
  · rename_i h; cases h; exact absurd rfl (hne 'n' (by decide) (by decide))
  · rename_i h; cases h; exact absurd rfl (hne 't' (by decide) (by decide))
  · rename_i h; cases h; exact absurd rfl (hne 'f' (by decide) (by decide))
  · rename_i h; cases h; exact absurd rfl (hne '"' (by decide) (by decide))
  · rename_i h; cases h; exact absurd rfl (hne '[' (by decide) (by decide))
  · rename_i h; cases h; exact absurd rfl (hne '{' (by decide) (by decide))
  · rename_i h; cases h; rw [if_pos hx]

/-- A word that stands there in full. -/
theorem word_append (value : Doc) (w : List Char) (r : List Symbol) :
    word value w (w.map some ++ r) = (value, some r) := by
  induction w with
  | nil => rfl
  | cons c w ih => rw [List.map_cons, List.cons_append, word, if_pos rfl, ih]

theorem parse_word {value : Doc} {c : Char} {w : List Char} (hc : isGap (some c) = false)
    (hparse : ∀ s t, skipGap s = some c :: t → parse (fuel + 1) s = word value w t) (hg : Gap g) (r : List Symbol) :
    parse (fuel + 1) (g.map some ++ ((c :: w).map some ++ r)) = (value, some r) := by
  have hskip : skipGap (g.map some ++ ((c :: w).map some ++ r)) = some c :: (w.map some ++ r) := skipGap_head hg hc _
  rw [hparse _ _ hskip, word_append]

theorem numeral_append {n : Number} (hn : n.Legible) (hr : Numeral.Ended r) :
    numeral (n.chars.map some ++ r) = (.number (.ok n), some r) := by
  rw [numeral, Numeral.read_append hr hn.read, Numeral.skim_append hr, hn.skim]
  rfl

theorem items_end {first : Bool} (hskip : skipGap s = some ']' :: t) :
    items (fuel + 1) first s = ([], .ok t) := by
  rw [items, hskip]
  rfl

theorem items_first {c : Char} (hskip : skipGap s = some c :: t) (hc : c ≠ ']') :
    items (fuel + 1) true s = item fuel (some c :: t) := by
  rw [items, hskip]
  split <;> simp_all

theorem items_next (fuel : Nat) {c : Char} (hskip : skipGap s = some c :: t) (hc : c ≠ ']') :
    items (fuel + 1) false (some ',' :: s) = item fuel (some c :: t) := by
  rw [items, skipGap_cons (by decide)]
  simp [hskip, hc]

theorem item_ok {fuel : Nat} {x : Doc} {xs : List Doc} (hx : parse fuel s = (x, some t))
    (hxs : items fuel false t = (xs, .ok r)) : item (fuel + 1) s = (x :: xs, .ok r) := by
  simp only [item, hx, hxs]

theorem members_end {first : Bool} (hskip : skipGap s = some '}' :: t) :
    members (fuel + 1) first s = ([], .ok t, none) := by
  rw [members, hskip]
  rfl

theorem members_first (hskip : skipGap s = some '"' :: t) : members (fuel + 1) true s = member fuel t := by
  rw [members, hskip]
  rfl

theorem members_next (hskip : skipGap s = some '"' :: t) :
    members (fuel + 1) false (some ',' :: s) = member fuel t := by
  rw [members, skipGap_cons (by decide)]
  simp [hskip]

theorem member_ok {k : String} {x : Doc} {ms : List (Except SyntaxError String × Doc)} {u : List Symbol}
    (hk : Doc.quoted s = .ok (.ok k, some ':' :: t)) (hx : parse fuel t = (x, some u))
    (hms : members fuel false u = (ms, .ok r, none)) :
    member (fuel + 1) s = ((.ok k, x) :: ms, .ok r, none) := by
  simp only [member, hk, skipGap_cons (show isGap (some ':') = false by decide), hx, hms]

end Doc

/-- What the parser makes of a text of the part, given one step for each third of a character. -/
def Part.ReadFrom (cs : List Char) : Part → Prop
  | .value j => ∀ fuel g r, Gap g → Numeral.Ended r → 3 * cs.length ≤ fuel →
      Doc.parse fuel (g.map some ++ (cs.map some ++ r)) = (Doc.ofJson j, some r)
  | .items xs => ∀ fuel r, 3 * cs.length ≤ fuel →
      Doc.items fuel false (cs.map some ++ r) = (Doc.ofItems xs, .ok r)
  | .fields fs => ∀ fuel r, 3 * cs.length ≤ fuel →
      Doc.members fuel false (cs.map some ++ r) = (Doc.ofFields fs, .ok r, none)

/-- Every rule of the grammar has a character of its own, which pays for the steps that the parser takes for it. -/
theorem exists_fuel_of_le {n : Nat} (hn : 0 < n) (hfuel : 3 * n ≤ fuel) : ∃ f, fuel = f + 3 :=
  ⟨_, (Nat.sub_add_cancel (by omega)).symm⟩

namespace Part.ReadFrom

variable {x v : Json} {xs : List Json} {fs : List (String × Json)} {g' ds : List Char}

theorem word {c : Char} {w : List Char} (hc : isGap (some c) = false)
    (hparse : ∀ fuel s t, skipGap s = some c :: t → Doc.parse (fuel + 1) s = Doc.word (Doc.ofJson j) w t) :
    (Part.value j).ReadFrom (c :: w) := by
  intro fuel g r hg _ hfuel
  obtain ⟨fuel, rfl⟩ := exists_fuel_of_le (by simp) hfuel
  exact Doc.parse_word hc (hparse (fuel + 2)) hg r

theorem num {n : Number} (hn : n.Legible) : (Part.value (.num n)).ReadFrom n.chars := by
  intro fuel g r hg hr hfuel
  obtain ⟨c, cs, hcs, hgap, -⟩ := Spells.head (.num hn)
  obtain ⟨x, t, hx, hstart⟩ := Numeral.head_of_read hn.read
  obtain ⟨fuel, rfl⟩ := exists_fuel_of_le (by simp [hcs]) hfuel
  rw [hcs] at hx
  cases hx
  have hskip := skipGap_head hg hgap (cs.map some ++ r)
  have hnum := Doc.numeral_append hn hr
  rw [hcs] at hnum ⊢
  exact (Doc.parse_numeral hstart hskip).trans hnum

theorem str (s : String) : (Part.value (.str s)).ReadFrom (quoted s) := by
  intro fuel g r hg _ hfuel
  obtain ⟨fuel, rfl⟩ := exists_fuel_of_le (by simp [quoted]) hfuel
  have hquoted := Doc.quoted_escapes s r
  have hskip : skipGap (g.map some ++ ((quoted s).map some ++ r)) =
      some '"' :: ((s.toList.flatMap escape).map some ++ some '"' :: r) := by
    rw [quoted_eq_cons, List.map_cons, List.cons_append, skipGap_head hg rfl]
    simp
  rw [Doc.parse, hskip]
  simp only [hquoted]
  rfl

theorem noItems : (Part.value (.arr [])).ReadFrom ['[', ']'] := by
  intro fuel g r hg _ hfuel
  obtain ⟨fuel, rfl⟩ := exists_fuel_of_le (by decide) hfuel
  have hskip : skipGap (g.map some ++ (['[', ']'].map some ++ r)) = some '[' :: some ']' :: r :=
    skipGap_head hg rfl _
  have hitems : Doc.items (fuel + 2) true (some ']' :: r) = ([], .ok r) := Doc.items_end (skipGap_cons rfl r)
  rw [Doc.parse, hskip]
  simp only [hitems]
  rfl

theorem noFields : (Part.value (.obj [])).ReadFrom ['{', '}'] := by
  intro fuel g r hg _ hfuel
  obtain ⟨fuel, rfl⟩ := exists_fuel_of_le (by decide) hfuel
  have hskip : skipGap (g.map some ++ (['{', '}'].map some ++ r)) = some '{' :: some '}' :: r :=
    skipGap_head hg rfl _
  have hmembers : Doc.members (fuel + 2) true (some '}' :: r) = ([], .ok r, none) :=
    Doc.members_end (skipGap_cons rfl r)
  rw [Doc.parse, hskip]
  simp only [hmembers]
  rfl

theorem lastItem (hg : Gap g) : (Part.items []).ReadFrom (g ++ [']']) := by
  intro fuel r hfuel
  obtain ⟨fuel, rfl⟩ := exists_fuel_of_le (by simp) hfuel
  rw [List.map_append, List.append_assoc]
  exact Doc.items_end (skipGap_head hg rfl r)

theorem lastField (hg : Gap g) : (Part.fields []).ReadFrom (g ++ ['}']) := by
  intro fuel r hfuel
  obtain ⟨fuel, rfl⟩ := exists_fuel_of_le (by simp) hfuel
  rw [List.map_append, List.append_assoc]
  exact Doc.members_end (skipGap_head hg rfl r)

theorem item (fuel : Nat) (hx : (Part.value x).ReadFrom cs) (hxs : (Part.items xs).ReadFrom ds)
    (hended : Numeral.Ended (ds.map some ++ r)) (hcs : 3 * cs.length ≤ fuel) (hds : 3 * ds.length ≤ fuel) :
    Doc.item (fuel + 1) (cs.map some ++ (ds.map some ++ r)) = (Doc.ofItems (x :: xs), .ok r) :=
  Doc.item_ok (hx fuel [] _ gap_nil hended hcs) (hxs fuel r hds)

theorem member (k : String) (fuel : Nat) (hv : (Part.value v).ReadFrom cs) (hfs : (Part.fields fs).ReadFrom ds)
    (hg : Gap g) (hended : Numeral.Ended (ds.map some ++ r)) (hcs : 3 * cs.length ≤ fuel) (hds : 3 * ds.length ≤ fuel) :
    Doc.member (fuel + 1) ((k.toList.flatMap escape).map some ++
        some '"' :: some ':' :: (g.map some ++ (cs.map some ++ (ds.map some ++ r)))) =
      (Doc.ofFields ((k, v) :: fs), .ok r, none) :=
  Doc.member_ok (Doc.quoted_escapes k _) (hv fuel g _ hg hended hcs) (hfs fuel r hds)

theorem array (hg : Gap g) (hx : Spells (.value x) cs) (hxs : Spells (.items xs) ds)
    (ihx : (Part.value x).ReadFrom cs) (ihxs : (Part.items xs).ReadFrom ds) :
    (Part.value (.arr (x :: xs))).ReadFrom ('[' :: (g ++ (cs ++ ds))) := by
  intro fuel g₀ r hg₀ _ hfuel
  obtain ⟨c, cs', rfl, hgap, hc⟩ := hx.head
  obtain ⟨fuel, rfl⟩ := exists_fuel_of_le (by simp) hfuel
  simp only [List.length_cons, List.length_append] at hfuel
  have hitem := ihx.item fuel ihxs (hxs.ended_items r) (by simp; omega) (by omega)
  have hitems : Doc.items (fuel + 2) true (g.map some ++ ((c :: cs').map some ++ (ds.map some ++ r))) =
      (Doc.ofItems (x :: xs), .ok r) :=
    (Doc.items_first (skipGap_head hg hgap _) hc).trans hitem
  simp only [List.map_cons, List.map_append, List.cons_append, List.append_assoc] at hitems ⊢
  rw [Doc.parse, skipGap_head hg₀ rfl]
  simp only [hitems]
  rfl

theorem nextItem (hg : Gap g) (hx : Spells (.value x) cs) (hxs : Spells (.items xs) ds)
    (ihx : (Part.value x).ReadFrom cs) (ihxs : (Part.items xs).ReadFrom ds) :
    (Part.items (x :: xs)).ReadFrom (',' :: (g ++ (cs ++ ds))) := by
  intro fuel r hfuel
  obtain ⟨c, cs', rfl, hgap, hc⟩ := hx.head
  obtain ⟨fuel, rfl⟩ := exists_fuel_of_le (by simp) hfuel
  simp only [List.length_cons, List.length_append] at hfuel
  have hitem := ihx.item (fuel + 1) ihxs (hxs.ended_items r) (by simp; omega) (by omega)
  have hnext := Doc.items_next (fuel + 2) (skipGap_head hg hgap (cs'.map some ++ (ds.map some ++ r))) hc
  simp only [List.map_cons, List.map_append, List.cons_append, List.append_assoc] at hitem ⊢
  exact hnext.trans hitem

theorem object (k : String) (hg : Gap g) (hg' : Gap g') (hfs : Spells (.fields fs) ds)
    (ihv : (Part.value v).ReadFrom cs) (ihfs : (Part.fields fs).ReadFrom ds) :
    (Part.value (.obj ((k, v) :: fs))).ReadFrom ('{' :: (g ++ (quoted k ++ ':' :: (g' ++ (cs ++ ds))))) := by
  intro fuel g₀ r hg₀ _ hfuel
  obtain ⟨fuel, rfl⟩ := exists_fuel_of_le (by simp) hfuel
  simp only [List.length_cons, List.length_append] at hfuel
  have hmember := ihv.member k fuel ihfs hg' (hfs.ended_fields r) (by omega) (by omega)
  have hmembers := (Doc.members_first (skipGap_head hg rfl _)).trans hmember
  simp only [quoted_eq_cons, List.map_cons, List.map_append, List.cons_append, List.append_assoc,
    List.nil_append]
  rw [Doc.parse, skipGap_head hg₀ rfl]
  simp only [hmembers]
  rfl

theorem nextField (k : String) (hg : Gap g) (hg' : Gap g') (hfs : Spells (.fields fs) ds)
    (ihv : (Part.value v).ReadFrom cs) (ihfs : (Part.fields fs).ReadFrom ds) :
    (Part.fields ((k, v) :: fs)).ReadFrom (',' :: (g ++ (quoted k ++ ':' :: (g' ++ (cs ++ ds))))) := by
  intro fuel r hfuel
  obtain ⟨fuel, rfl⟩ := exists_fuel_of_le (by simp) hfuel
  simp only [List.length_cons, List.length_append] at hfuel
  have hmember := ihv.member k (fuel + 1) ihfs hg' (hfs.ended_fields r) (by omega) (by omega)
  have hnext := (Doc.members_next (skipGap_head hg rfl _)).trans hmember
  simp only [quoted_eq_cons, List.map_cons, List.map_append, List.cons_append, List.append_assoc,
    List.nil_append]
  exact hnext

end Part.ReadFrom

theorem Spells.readFrom {p : Part} (h : Spells p cs) : p.ReadFrom cs := by
  induction h with
  | wordNull => exact .word rfl fun _ _ _ h => by rw [Doc.parse, h]; rfl
  | wordTrue => exact .word rfl fun _ _ _ h => by rw [Doc.parse, h]; rfl
  | wordFalse => exact .word rfl fun _ _ _ h => by rw [Doc.parse, h]; rfl
  | num hn => exact .num hn
  | str s => exact .str s
  | noItems => exact .noItems
  | array hg hx hxs ihx ihxs => exact .array hg hx hxs ihx ihxs
  | noFields => exact .noFields
  | object hg hg' _ hfs ihv ihfs => exact .object _ hg hg' hfs ihv ihfs
  | lastItem hg => exact .lastItem hg
  | nextItem hg hx hxs ihx ihxs => exact .nextItem hg hx hxs ihx ihxs
  | lastField hg => exact .lastField hg
  | nextField hg hg' _ hfs ihv ihfs => exact .nextField _ hg hg' hfs ihv ihfs

/-- A text has no control characters but those of its gaps. -/
theorem Spells.printable {p : Part} (h : Spells p cs) : ∀ c ∈ cs, isGap (some c) = true ∨ 32 ≤ c.toNat := by
  have hquoted : ∀ (s : String) (c : Char), c ∈ quoted s → isGap (some c) = true ∨ 32 ≤ c.toNat :=
    fun s c hc => .inr (printable_quoted s c hc)
  have hgap : ∀ {g : List Char}, Gap g → ∀ c ∈ g, isGap (some c) = true ∨ 32 ≤ c.toNat :=
    fun hg c hc => .inl (hg c hc)
  have hplain : ∀ {w : List Char}, (w.all fun c => decide (32 ≤ c.toNat)) = true →
      ∀ c ∈ w, isGap (some c) = true ∨ 32 ≤ c.toNat :=
    fun hw c hc => .inr (of_decide_eq_true (List.all_eq_true.mp hw c hc))
  induction h with
  | wordNull | wordTrue | wordFalse | noItems | noFields => exact hplain (by decide)
  | num h => exact fun c hc => .inr (Numeral.printable_of_isLetter (h.letters c hc))
  | str s => exact hquoted s
  | array hg _ _ ihx ihxs | nextItem hg _ _ ihx ihxs =>
      simp only [List.forall_mem_cons, List.forall_mem_append]
      exact ⟨by decide, hgap hg, ihx, ihxs⟩
  | object hg hg' _ _ ihv ihfs | nextField hg hg' _ _ ihv ihfs =>
      simp only [List.forall_mem_cons, List.forall_mem_append]
      exact ⟨by decide, hgap hg, hquoted _, by decide, hgap hg', ihv, ihfs⟩
  | lastItem hg | lastField hg =>
      simp only [List.forall_mem_cons, List.forall_mem_append]
      exact ⟨hgap hg, by decide, by simp⟩

/-! ### The printers -/

mutual
theorem chars_spells : ∀ j : Json, j.Legible → Spells (.value j) j.chars
  | .null, _ => .wordNull
  | .bool true, _ => .wordTrue
  | .bool false, _ => .wordFalse
  | .num _, h => .num h
  | .str s, _ => .str s
  | .arr [], _ => .noItems
  | .arr (x :: xs), h => .array gap_nil (chars_spells x h.1) (itemChars_spells xs h.2)
  | .obj [], _ => .noFields
  | .obj ((_, v) :: fs), h => .object gap_nil gap_nil (chars_spells v h.1) (fieldChars_spells fs h.2)
theorem itemChars_spells : ∀ xs : List Json, AllItems Number.Legible xs → Spells (.items xs) (itemChars xs)
  | [], _ => .lastItem gap_nil
  | x :: xs, h => .nextItem gap_nil (chars_spells x h.1) (itemChars_spells xs h.2)
theorem fieldChars_spells : ∀ fs : List (String × Json), AllFields Number.Legible fs →
    Spells (.fields fs) (fieldChars fs)
  | [], _ => .lastField gap_nil
  | (_, v) :: fs, h => .nextField gap_nil gap_nil (chars_spells v h.1) (fieldChars_spells fs h.2)
end

mutual
theorem prettyChars_spells : ∀ (indent : Nat) (j : Json), j.Legible → Spells (.value j) (j.prettyChars indent)
  | _, .null, _ => .wordNull
  | _, .bool true, _ => .wordTrue
  | _, .bool false, _ => .wordFalse
  | _, .num _, h => .num h
  | _, .str s, _ => .str s
  | _, .arr [], _ => .noItems
  | n, .arr (x :: xs), h => by
      rw [prettyChars, List.append_assoc]
      exact .array (gap_newline _) (prettyChars_spells (n + 1) x h.1) (prettyItems_spells n xs h.2)
  | _, .obj [], _ => .noFields
  | n, .obj ((_, v) :: fs), h => by
      rw [prettyChars, List.append_assoc]
      exact .object (gap_newline _) gap_space (prettyChars_spells (n + 1) v h.1) (prettyFields_spells n fs h.2)
theorem prettyItems_spells : ∀ (indent : Nat) (xs : List Json), AllItems Number.Legible xs →
    Spells (.items xs) (prettyItems indent xs)
  | _, [], _ => .lastItem (gap_newline _)
  | n, x :: xs, h => by
      rw [prettyItems, List.append_assoc]
      exact .nextItem (gap_newline _) (prettyChars_spells (n + 1) x h.1) (prettyItems_spells n xs h.2)
theorem prettyFields_spells : ∀ (indent : Nat) (fs : List (String × Json)), AllFields Number.Legible fs →
    Spells (.fields fs) (prettyFields indent fs)
  | _, [], _ => .lastField (gap_newline _)
  | n, (_, v) :: fs, h => by
      rw [prettyFields, List.append_assoc]
      exact .nextField (gap_newline _) gap_space (prettyChars_spells (n + 1) v h.1) (prettyFields_spells n fs h.2)
end

theorem nul_not_mem_compact (h : j.Legible) : '\x00' ∉ j.compact.toList := by
  intro hmem
  rw [compact, String.toList_ofList] at hmem
  exact absurd ((chars_spells j h).printable _ hmem) (by decide)

/-! ### Whole documents -/

namespace Document

/-- A text of a value holds that value and nothing else. -/
theorem ofSymbols_spells (h : Spells (.value j) cs) : ofSymbols (cs.map some) = ofJson j := by
  have hparse : Doc.parse (3 * (cs.map some).length + 3) (cs.map some) = (Doc.ofJson j, some []) := by
    have := h.readFrom (3 * (cs.map some).length + 3) [] [] gap_nil Numeral.ended_nil (by simp)
    simpa using this
  simp only [ofSymbols, hparse]
  rfl

theorem ofText_compact (h : j.Legible) : ofText j.compact = ofJson j := by
  rw [ofText, Text.symbols, compact, String.toList_ofList]
  exact ofSymbols_spells (chars_spells j h)

theorem symbolsOfBytes_toUTF8 (s : String) : Text.symbolsOfBytes s.toUTF8 = symbols s := by
  have hvalid : s.toUTF8.IsValidUTF8 := s.isValidUTF8
  rw [Text.symbolsOfBytes, String.fromUTF8?, dif_pos hvalid]
  rfl

theorem ofBytes_compact (h : j.Legible) : ofBytes j.compact.toUTF8 = ofJson j := by
  rw [ofBytes, symbolsOfBytes_toUTF8]
  exact ofText_compact h

theorem ofBytes_pretty (h : j.Legible) : ofBytes j.pretty.toUTF8 = ofJson j := by
  rw [ofBytes, symbolsOfBytes_toUTF8, Text.symbols, pretty, String.toList_ofList]
  exact ofSymbols_spells (prettyChars_spells 0 j h)

end Document

end Pipeworks.Json
