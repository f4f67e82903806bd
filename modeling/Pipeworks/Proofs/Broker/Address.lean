import Pipeworks.Broker.Probe
import Pipeworks.Proofs.Text.Blank
import Pipeworks.Proofs.Text.Unsigned

/-!
Which addresses are reached. Every entry of an address names an endpoint, be it of use or not, and which one it names
depends on no other entry. So an address is reached when one of its entries names an endpoint that has a host and a port
and accepts a connection: the order of the entries, how often they stand there, and blank entries make no difference.
-/

namespace Pipeworks.Probe

open Text

variable {accepts : String → Bool} {cs rest scheme entry endpoint host port : List Char} {c : Char}

/-! ### Schemes -/

def mark : List Char := [':', '/', '/']

theorem afterScheme?_mark (rest : List Char) : afterScheme? (mark ++ rest) = some rest := rfl

theorem afterScheme?_cons (h : ¬mark <+: c :: cs) : afterScheme? (c :: cs) = afterScheme? cs := by
  rw [afterScheme?]
  rintro rest rfl rfl
  exact h (List.prefix_append mark rest)

theorem afterScheme?_eq_none_iff : afterScheme? cs = none ↔ ¬mark <:+: cs := by
  induction cs with
  | nil => simp [afterScheme?, mark]
  | cons c cs ih =>
      rw [List.infix_cons_iff]
      by_cases hmark : mark <+: c :: cs
      · obtain ⟨rest, hrest⟩ := hmark
        rw [← hrest, afterScheme?_mark]
        simp
      · rw [afterScheme?_cons hmark, ih, or_iff_right hmark]

/-- No mark begins within a text that has none and ends within the mark behind that text. -/
theorem not_prefix_mark (h : ¬mark <:+: c :: scheme) (rest : List Char) : ¬mark <+: c :: scheme ++ mark ++ rest := by
  rintro ⟨after, hafter⟩
  match scheme with
  | [] => simp [mark] at hafter
  | [d] => simp [mark] at hafter
  | d :: e :: scheme =>
      simp only [mark, List.cons_append, List.nil_append, List.cons.injEq] at hafter
      obtain ⟨rfl, rfl, rfl, -⟩ := hafter
      exact h (List.prefix_append mark scheme).isInfix

theorem afterScheme?_eq_some_iff :
    afterScheme? cs = some rest ↔ ∃ scheme, cs = scheme ++ mark ++ rest ∧ ¬mark <:+: scheme := by
  constructor
  · intro h
    induction cs with
    | nil => cases h
    | cons c cs ih =>
        by_cases hmark : mark <+: c :: cs
        · obtain ⟨after, hafter⟩ := hmark
          rw [← hafter, afterScheme?_mark] at h
          obtain rfl := Option.some.inj h
          exact ⟨[], hafter.symm, by simp [mark]⟩
        · rw [afterScheme?_cons hmark] at h
          obtain ⟨scheme, rfl, hscheme⟩ := ih h
          refine ⟨c :: scheme, rfl, fun hinfix => ?_⟩
          rcases List.infix_cons_iff.mp hinfix with hfront | hinfix
          · exact hmark (hfront.trans ⟨mark ++ rest, by simp⟩)
          · exact hscheme hinfix
  · rintro ⟨scheme, rfl, hscheme⟩
    induction scheme with
    | nil => exact afterScheme?_mark rest
    | cons c scheme ih =>
        refine (afterScheme?_cons (not_prefix_mark hscheme rest)).trans (ih fun hinfix => ?_)
        exact hscheme (List.infix_cons hinfix)

/-- What an entry is without its scheme, if it has one: a scheme goes up to the first mark. -/
def WithoutScheme (text rest : List Char) : Prop :=
  (∃ scheme, text = scheme ++ mark ++ rest ∧ ¬mark <:+: scheme) ∨ (¬mark <:+: text ∧ rest = text)

theorem dropScheme_eq_iff : dropScheme cs = rest ↔ WithoutScheme cs rest := by
  rw [dropScheme, WithoutScheme, ← afterScheme?_eq_some_iff, ← afterScheme?_eq_none_iff]
  cases afterScheme? cs with
  | none => simp [eq_comm]
  | some after => simp

/-! ### Endpoints -/

/-- What an entry of an address names: blanks may stand around it, a scheme in front of it, and slashes behind it. -/
def Names (entry endpoint : List Char) : Prop :=
  ∃ before text after rest slashes,
    entry = before ++ text ++ after ∧ (∀ c ∈ before, isBlank c = true) ∧ (∀ c ∈ after, isBlank c = true) ∧ Bare text ∧
      WithoutScheme text rest ∧
      rest = endpoint ++ slashes ∧ (∀ c ∈ slashes, c = '/') ∧ ∀ c ∈ endpoint.getLast?, c ≠ '/'

def named (entry : List Char) : List Char := dropSlashes (dropScheme (trim entry))

theorem dropSlashes_eq_iff : dropSlashes rest = endpoint ↔
    (∃ slashes, rest = endpoint ++ slashes ∧ ∀ c ∈ slashes, c = '/') ∧ ∀ c ∈ endpoint.getLast?, c ≠ '/' := by
  rw [dropSlashes, reverse_dropWhile_eq_iff]
  simp only [decide_eq_true_eq, decide_eq_false_iff_not, ne_eq]

/-- Every entry names one endpoint. -/
theorem names_iff : Names entry endpoint ↔ named entry = endpoint := by
  constructor
  · rintro ⟨before, text, after, rest, slashes, hentry, hbefore, hafter, hbare, hrest, hslashes, hall, hlast⟩
    rw [named, trim_eq_iff.mpr ⟨hbare, before, after, hentry, hbefore, hafter⟩, dropScheme_eq_iff.mpr hrest]
    exact dropSlashes_eq_iff.mpr ⟨⟨slashes, hslashes, hall⟩, hlast⟩
  · intro h
    obtain ⟨hbare, before, after, hentry, hbefore, hafter⟩ := trim_eq_iff.mp (rfl : trim entry = _)
    obtain ⟨⟨slashes, hslashes, hall⟩, hlast⟩ := dropSlashes_eq_iff.mp h
    exact ⟨before, _, after, _, slashes, hentry, hbefore, hafter, hbare, dropScheme_eq_iff.mp rfl, hslashes, hall,
      hlast⟩

theorem takeWhile_port (h : ':' ∉ port) (rest : List Char) :
    (port.reverse ++ rest).takeWhile (· ≠ ':') = port.reverse ++ rest.takeWhile (· ≠ ':') :=
  List.takeWhile_append_of_pos fun _ hc => decide_eq_true fun heq => h (heq ▸ List.mem_reverse.mp hc)

theorem hostAndPort?_append (host : List Char) (h : ':' ∉ port) :
    hostAndPort? (host ++ ':' :: port) = some (host, port) := by
  have hback : (host ++ ':' :: port).reverse = port.reverse ++ ':' :: host.reverse := by simp
  have hport : (port.reverse ++ ':' :: host.reverse).takeWhile (· ≠ ':') = port.reverse := by
    rw [takeWhile_port h, List.takeWhile_cons_of_neg (by simp), List.append_nil]
  rw [hostAndPort?, hback, hport, List.drop_left]
  simp

theorem hostAndPort?_of_not_mem (h : ':' ∉ endpoint) : hostAndPort? endpoint = none := by
  have hall := takeWhile_port h []
  rw [List.takeWhile_nil, List.append_nil] at hall
  rw [hostAndPort?, hall, List.drop_length]

theorem hostAndPort?_eq_some_iff :
    hostAndPort? endpoint = some (host, port) ↔ endpoint = host ++ ':' :: port ∧ ':' ∉ port := by
  refine ⟨fun h => ?_, fun ⟨heq, hport⟩ => heq ▸ hostAndPort?_append host hport⟩
  by_cases hcolon : ':' ∈ endpoint
  · obtain ⟨back, front, hback, hfirst⟩ := List.eq_append_cons_of_mem (List.mem_reverse.mpr hcolon)
    have hlast : ':' ∉ back.reverse := fun hmem => hfirst (List.mem_reverse.mp hmem)
    have hsplit : endpoint = front.reverse ++ ':' :: back.reverse := by
      rw [← List.reverse_inj, hback]
      simp
    rw [hsplit, hostAndPort?_append front.reverse hlast] at h
    obtain ⟨rfl, rfl⟩ := Prod.mk.inj (Option.some.inj h)
    exact ⟨hsplit, hlast⟩
  · rw [hostAndPort?_of_not_mem hcolon] at h
    cases h

def HasHostAndPort (endpoint : List Char) : Prop :=
  ∃ host port n, endpoint = host ++ ':' :: port ∧ ':' ∉ port ∧ host ≠ [] ∧ n < 65536 ∧ Denotes port n

theorem isOk_iff {ε α : Type} {x : Except ε α} : x.isOk = true ↔ ∃ a, x = .ok a := by
  cases x <;> simp [Except.isOk, Except.toBool]

theorem hasPort_iff : hasPort endpoint = true ↔ HasHostAndPort endpoint := by
  have hsome : hasPort endpoint = true ↔ ∃ host port, hostAndPort? endpoint = some (host, port) ∧
      host ≠ [] ∧ ∃ n, readUnsigned portBound port = .ok n := by
    rw [hasPort]
    cases hostAndPort? endpoint with
    | none => simp
    | some parts =>
        obtain ⟨host, port⟩ := parts
        simp [isOk_iff]
  rw [hsome, HasHostAndPort]
  refine exists₂_congr fun host port => ?_
  simp only [hostAndPort?_eq_some_iff, readUnsigned_eq_ok_iff, portBound, and_assoc, exists_and_left]

/-! ### Addresses -/

theorem not_hasPort_named (h : trim entry = []) : hasPort (named entry) = false := by
  rw [named, h]
  rfl

theorem reachable_eq_any (accepts : String → Bool) (address : String) : reachable accepts address =
    (address.toList.splitOn ',').any fun entry => hasPort (named entry) && accepts (String.ofList (named entry)) := by
  rw [reachable, endpoints, cutAt_eq_splitOn, List.any_map, List.any_filter, List.any_map]
  congr 1
  funext entry
  cases htrim : trim entry with
  | nil => simp [htrim, not_hasPort_named htrim]
  | cons c text => simp [htrim, named]

theorem reachable_append (accepts : String → Bool) (a b : String) :
    reachable accepts (a ++ "," ++ b) = (reachable accepts a || reachable accepts b) := by
  have hparts : (a ++ "," ++ b).toList.splitOn ',' = a.toList.splitOn ',' ++ b.toList.splitOn ',' := by
    rw [String.toList_append, String.toList_append, List.append_assoc]
    exact List.splitOn_append_cons_self _ _
  simp only [reachable_eq_any, hparts, List.any_append]

theorem reachable_iff (accepts : String → Bool) (address : String) : reachable accepts address = true ↔
    ∃ entry ∈ address.toList.splitOn ',', ∃ endpoint,
      Names entry endpoint ∧ HasHostAndPort endpoint ∧ accepts (String.ofList endpoint) = true := by
  simp [reachable_eq_any, names_iff, hasPort_iff]

theorem exists_not_blank (hnames : Names entry endpoint) (hport : HasHostAndPort endpoint) :
    ∃ c ∈ entry, isBlank c = false := by
  by_contra hblank
  have hnamed := names_iff.mp hnames
  have htrim : trim entry = [] := trim_eq_nil_iff.mpr (by simpa using hblank)
  have hnone := not_hasPort_named htrim
  rw [hnamed, hasPort_iff.mpr hport] at hnone
  cases hnone

/-- An address is reached when one of its entries is. So a list of two addresses is reached when one of them is, and
addresses with the same entries, but for their order, how often they stand there, and blank ones, are reached alike. -/
theorem reached_through_one_entry (accepts : String → Bool) :
    (∀ a b, reachable accepts (a ++ "," ++ b) = (reachable accepts a || reachable accepts b)) ∧
      (∀ address, reachable accepts address = true ↔ ∃ entry ∈ address.toList.splitOn ',', ∃ endpoint,
        Names entry endpoint ∧ HasHostAndPort endpoint ∧ accepts (String.ofList endpoint) = true) ∧
      ∀ a b, (∀ entry, (∃ c ∈ entry, isBlank c = false) →
        (entry ∈ a.toList.splitOn ',' ↔ entry ∈ b.toList.splitOn ',')) →
          reachable accepts a = reachable accepts b := by
  refine ⟨reachable_append accepts, reachable_iff accepts, fun a b hentries => ?_⟩
  rw [Bool.eq_iff_iff, reachable_iff, reachable_iff]
  refine exists_congr fun entry => and_congr_left ?_
  rintro ⟨endpoint, hnames, hport, -⟩
  exact hentries entry (exists_not_blank hnames hport)

/-- An entry without a port, which stands there twice in another place, and one with all that may be around an endpoint. -/
theorem reached_through_one_entry_reordered :
    (∀ entry, (∃ c ∈ entry, isBlank c = false) →
      (entry ∈ "tcp://k://h:+80// ,x".toList.splitOn ',' ↔ entry ∈ "x,\t,x,tcp://k://h:+80// ".toList.splitOn ',')) ∧
      reachable (· == "k://h:+80") "x,\t,x,tcp://k://h:+80// " = true := by
  have hentries : ∀ entry, (∃ c ∈ entry, isBlank c = false) →
      (entry ∈ "tcp://k://h:+80// ,x".toList.splitOn ',' ↔ entry ∈ "x,\t,x,tcp://k://h:+80// ".toList.splitOn ',') := by
    have hone : "tcp://k://h:+80// ,x".toList.splitOn ',' = ["tcp://k://h:+80// ".toList, ['x']] := by decide
    have htwo : "x,\t,x,tcp://k://h:+80// ".toList.splitOn ',' =
        [['x'], ['\t'], ['x'], "tcp://k://h:+80// ".toList] := by decide
    rintro entry ⟨c, hc, hblank⟩
    have htab : entry ≠ ['\t'] := by
      rintro rfl
      rw [List.mem_singleton.mp hc] at hblank
      cases hblank
    rw [hone, htwo]
    simp only [List.mem_cons, List.not_mem_nil, or_false]
    tauto
  obtain ⟨-, -, hsame⟩ := reached_through_one_entry (· == "k://h:+80")
  exact ⟨hentries, (hsame _ _ hentries).symm.trans (by decide)⟩

end Pipeworks.Probe
