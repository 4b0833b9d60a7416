import Mathlib.Data.List.Forall2
import Mathlib.Data.List.Infix
import Mathlib.Data.List.Nodup
import WorkWaves.Fixer

/-!
# What is put for placeholders

A single pass over a text reads it as pieces, placeholders and other characters, and shows for each placeholder what
stands for it (`Once`). The arguments of the fixer come from four such passes instead, one for each placeholder, and
each of them goes over what the ones before have put in (`InTurn`). This comes to a single pass if no placeholder can
begin in what is put in, or before it and go on into it (`Fixer.arguments_of_templates`). Otherwise the text of a
title can be taken for a placeholder (`Fixer.expanded_of_title`).
-/

namespace WorkWaves

namespace Text

variable {a b p q s t u v w x : List Char}

/-- One of two texts is the beginning of the other. -/
def Meets (a b : List Char) : Prop := a <+: b ∨ b <+: a

instance (a b : List Char) : Decidable (Meets a b) := inferInstanceAs (Decidable (_ ∨ _))

/-- Nowhere in a text does another one begin, not even one that goes on behind it. -/
def Clear (v q : List Char) : Prop := ∀ i < v.length, ¬ Meets (v.drop i) q

instance (v q : List Char) : Decidable (Clear v q) := inferInstanceAs (Decidable (∀ i < v.length, _))

/-- When `v` is put for `p` in a text, no `q` that begins before a `p` goes on into the `v`. -/
def Unjoined (t p v q : List Char) : Prop :=
  ∀ i < q.length, 0 < i → q.take i ++ p <:+: t → ¬ Meets (q.drop i) v

instance (t p v q : List Char) : Decidable (Unjoined t p v q) := inferInstanceAs (Decidable (∀ i < q.length, _))

/-- Texts that can be told apart wherever they stand. -/
structure Marks (keys : List (List Char)) : Prop where
  nodup : keys.Nodup
  ne_nil : ∀ a ∈ keys, a ≠ []
  apart : ∀ a ∈ keys, ∀ b ∈ keys, ∀ i < a.length, 0 < i ∨ a ≠ b → ¬ Meets (a.drop i) b

theorem Marks.singleton {keys : List (List Char)} (hm : Marks keys) (ha : a ∈ keys) : Marks [a] where
  nodup := List.nodup_singleton a
  ne_nil := by simpa using hm.ne_nil a ha
  apart := by simpa using hm.apart a ha a ha

/-! ### Pieces of a text -/

/-- A piece of a text: a character, or a placeholder with what stands for it. -/
inductive Piece where
  | char (c : Char)
  | slot (p v : List Char)
  deriving DecidableEq

/-- What a piece shows when the placeholders in a list are filled in. -/
def Piece.shown (done : List (List Char × List Char)) : Piece → List Char
  | char c => [c]
  | slot p v => if (p, v) ∈ done then v else p

@[simp] theorem Piece.shown_char (done : List (List Char × List Char)) (c : Char) : (char c).shown done = [c] := rfl

@[simp] theorem Piece.shown_slot (done : List (List Char × List Char)) (p v : List Char) :
    (slot p v).shown done = if (p, v) ∈ done then v else p := rfl

/-- The pieces of a text, read from left to right. -/
inductive Reads (ps : List (List Char × List Char)) : List Char → List Piece → Prop
  | nil : Reads ps [] []
  | slot {p v t : List Char} {l : List Piece} (h : (p, v) ∈ ps) (hr : Reads ps t l) : Reads ps (p ++ t) (.slot p v :: l)
  | char {c : Char} {t : List Char} {l : List Piece} (h : ∀ a ∈ ps, ¬ a.1 <+: c :: t) (hr : Reads ps t l) :
    Reads ps (c :: t) (.char c :: l)

variable {ps done : List (List Char × List Char)} {d : List Char × List Char} {l l' : List Piece}

theorem meets_of_starts (ha : a <+: t) (hb : b <+: t) : Meets a b := List.prefix_or_prefix_of_prefix ha hb

theorem meets_of_append (h : u <+: v ++ x) : Meets u v := meets_of_starts h (List.prefix_append v x)

theorem Marks.eq_of_starts (hm : Marks (ps.map Prod.fst)) {a b : List Char × List Char} (ha : a ∈ ps) (hb : b ∈ ps)
    (hat : a.1 <+: t) (hbt : b.1 <+: t) : a = b := by
  have ha' := List.mem_map_of_mem (f := Prod.fst) ha
  have hb' := List.mem_map_of_mem (f := Prod.fst) hb
  by_contra hne
  have hkeys : a.1 ≠ b.1 := fun h => hne (List.inj_on_of_nodup_map hm.nodup ha hb h)
  have hpos : 0 < a.1.length := List.length_pos_iff.mpr (hm.ne_nil _ ha')
  exact hm.apart _ ha' _ hb' 0 hpos (.inr hkeys) (meets_of_starts hat hbt)

theorem exists_reads (hne : ∀ a ∈ ps, a.1 ≠ []) (t : List Char) : ∃ l, Reads ps t l := by
  induction ht : t.length using Nat.strong_induction_on generalizing t with
  | _ n ih =>
    cases t with
    | nil => exact ⟨[], .nil⟩
    | cons c r =>
      by_cases hp : ∃ a ∈ ps, a.1 <+: c :: r
      · obtain ⟨⟨p, v⟩, ha, t', ht'⟩ := hp
        have hlen : 0 < p.length := List.length_pos_iff.mpr (hne _ ha)
        have hlt : t'.length < n := by
          rw [← ht, ← ht', List.length_append]
          exact Nat.lt_add_of_pos_left hlen
        obtain ⟨l, hl⟩ := ih _ hlt t' rfl
        rw [← ht']
        exact ⟨_, .slot ha hl⟩
      · push Not at hp
        obtain ⟨l, hl⟩ := ih r.length (by rw [← ht]; exact Nat.lt_succ_self _) r rfl
        exact ⟨_, .char hp hl⟩

theorem Reads.unique (hm : Marks (ps.map Prod.fst)) (h : Reads ps t l) (h' : Reads ps t l') : l = l' := by
  induction h generalizing l' with
  | nil =>
    generalize ht : ([] : List Char) = t at h'
    cases h' with
    | nil => rfl
    | slot ha _ => exact absurd (List.append_eq_nil_iff.mp ht.symm).1 (hm.ne_nil _ (List.mem_map_of_mem ha))
    | char _ _ => cases ht
  | @slot p v t l ha hr ih =>
    generalize ht : p ++ t = t' at h'
    cases h' with
    | nil => exact absurd (List.append_eq_nil_iff.mp ht).1 (hm.ne_nil _ (List.mem_map_of_mem ha))
    | @slot p' v' t' l' ha' hr' =>
      obtain ⟨rfl, rfl⟩ := Prod.mk.inj (hm.eq_of_starts ha ha' ⟨t, ht⟩ (List.prefix_append p' t'))
      rw [ih (List.append_cancel_left ht ▸ hr')]
    | char hno _ => exact absurd ⟨t, ht⟩ (hno _ ha)
  | @char c t l hno hr ih =>
    generalize ht : c :: t = t' at h'
    cases h' with
    | nil => cases ht
    | @slot p' v' t' l' ha' hr' => exact absurd ⟨t', ht.symm⟩ (hno _ ha')
    | char _ hr' =>
      obtain ⟨rfl, rfl⟩ := List.cons.inj ht
      rw [ih hr']

/-- Nothing is filled in at first. -/
theorem Reads.flatMap_shown_nil (h : Reads ps t l) : l.flatMap (Piece.shown []) = t := by
  induction h with
  | nil => rfl
  | slot _ _ ih => simp [Piece.shown, ih]
  | char _ _ ih => simp [Piece.shown, ih]

/-! ### One placeholder after the other -/

theorem Clear.of_cons {c : Char} (h : Clear (c :: v) q) : Clear v q := fun i hi => h (i + 1) (Nat.succ_lt_succ hi)

/-- What is clear of a placeholder is passed by. -/
theorem replaceFrom_clear (hq : Clear v q) (new x : List Char) :
    replaceFrom q new 0 (v ++ x) = v ++ replaceFrom q new 0 x := by
  induction v with
  | nil => rfl
  | cons c v ih =>
    have hno : q.isPrefixOf (c :: (v ++ x)) = false := by
      rw [Bool.eq_false_iff, ne_eq, List.isPrefixOf_iff_prefix]
      exact fun h => hq 0 (Nat.succ_pos _) (Or.symm (meets_of_append h))
    rw [List.cons_append, replaceFrom, hno, if_neg Bool.false_ne_true, ih hq.of_cons, List.cons_append]

/-- A placeholder that goes on in the shown pieces goes on in the text: the pieces on its way show themselves. The
induction is over the pieces, with the part `w` of the placeholder that is passed already. -/
theorem Reads.goes_on (hm : Marks (ps.map Prod.fst)) (hq : q ∈ ps.map Prod.fst)
    (hjoin : ∀ d ∈ done, Unjoined t d.1 d.2 q) (h : Reads ps x l) (hx : w ++ x <:+ t) (hw : w ≠ []) (hu : w ++ u = q)
    (hp : u <+: l.flatMap (Piece.shown done)) : u <+: x := by
  induction h generalizing w u with
  | nil => exact hp
  | @slot p v x l ha hr ih =>
    by_cases hnil : u = []
    · exact hnil ▸ List.nil_prefix
    exfalso
    have htake : q.take w.length = w := by rw [← hu, List.take_left]
    have hdrop : q.drop w.length = u := by rw [← hu, List.drop_left]
    have hpos : 0 < w.length := List.length_pos_iff.mpr hw
    have hlt : w.length < q.length := by
      rw [← hu, List.length_append]
      exact Nat.lt_add_of_pos_right (List.length_pos_iff.mpr hnil)
    rw [List.flatMap_cons, Piece.shown_slot] at hp
    have hmeets := meets_of_append hp
    split at hmeets
    · next hd =>
      have hin : w ++ p <:+: t := by
        refine List.IsInfix.trans ?_ hx.isInfix
        exact (List.append_assoc w p x ▸ List.prefix_append (w ++ p) x).isInfix
      rw [← htake] at hin
      rw [← hdrop] at hmeets
      exact hjoin _ hd _ hlt hpos hin hmeets
    · exact hm.apart q hq p (List.mem_map_of_mem ha) _ hlt (.inl hpos) (hdrop ▸ hmeets)
  | @char c x l hno hr ih =>
    cases u with
    | nil => exact List.nil_prefix
    | cons e u =>
      rw [List.flatMap_cons, Piece.shown_char, List.singleton_append] at hp
      obtain ⟨rfl, hgo⟩ := List.cons_prefix_cons.mp hp
      refine List.cons_prefix_cons.mpr ⟨rfl, ih (w := w ++ [e]) ?_ (by simp) (by simpa using hu) hgo⟩
      simpa using hx

/-- Replacing one more placeholder fills in its pieces. -/
theorem Reads.replaceFrom_shown (hm : Marks (ps.map Prod.fst)) (hd : d ∈ ps) (hnew : d ∉ done)
    (hclear : ∀ a ∈ done, Clear a.2 d.1) (hjoin : ∀ a ∈ done, Unjoined t a.1 a.2 d.1) (h : Reads ps x l) (hx : x <:+ t) :
    replaceFrom d.1 d.2 0 (l.flatMap (Piece.shown done)) = l.flatMap (Piece.shown (done ++ [d])) := by
  have hkey : d.1 ∈ ps.map Prod.fst := List.mem_map_of_mem hd
  induction h with
  | nil => rfl
  | @slot p v x l ha hr ih =>
    have ih := ih ((List.suffix_append p x).trans hx)
    rw [List.flatMap_cons, List.flatMap_cons, ← ih]
    by_cases hdone : (p, v) ∈ done
    · have hshown : Piece.shown done (.slot p v) = v := if_pos hdone
      have hshown' : Piece.shown (done ++ [d]) (.slot p v) = v := if_pos (List.mem_append_left _ hdone)
      rw [hshown, hshown', replaceFrom_clear (hclear _ hdone)]
    · have hshown : Piece.shown done (.slot p v) = p := if_neg hdone
      rw [hshown]
      by_cases heq : (p, v) = d
      · subst heq
        have hshown' : Piece.shown (done ++ [(p, v)]) (.slot p v) = v := if_pos (by simp)
        rw [hshown', replaceFrom_append (hm.ne_nil _ hkey)]
      · have hshown' : Piece.shown (done ++ [d]) (.slot p v) = p := if_neg (by simp [hdone, heq])
        have hp : p ≠ d.1 := fun h => heq (List.inj_on_of_nodup_map hm.nodup ha hd h)
        rw [hshown', replaceFrom_clear fun i hi => hm.apart p (List.mem_map_of_mem ha) _ hkey i hi (.inr hp)]
  | @char c x l hno hr ih =>
    have ih := ih ((List.suffix_cons c x).trans hx)
    have hout : d.1.isPrefixOf (c :: l.flatMap (Piece.shown done)) = false := by
      rw [Bool.eq_false_iff, ne_eq, List.isPrefixOf_iff_prefix]
      intro hp
      obtain ⟨e, u, he⟩ := List.exists_cons_of_ne_nil (hm.ne_nil _ hkey)
      rw [he] at hp
      obtain ⟨rfl, hgo⟩ := List.cons_prefix_cons.mp hp
      have htext : u <+: x := hr.goes_on (w := [e]) hm hkey hjoin hx (by simp) he.symm hgo
      exact hno _ hd (he ▸ List.cons_prefix_cons.mpr ⟨rfl, htext⟩)
    show replaceFrom d.1 d.2 0 (c :: l.flatMap (Piece.shown done)) = c :: l.flatMap (Piece.shown (done ++ [d]))
    rw [replaceFrom, hout, if_neg Bool.false_ne_true, ih]

/-- A placeholder cannot come about where an earlier one was replaced. -/
def Settled (ps : List (List Char × List Char)) (t : List Char) : Prop :=
  ps.Pairwise fun a b => Clear a.2 b.1 ∧ Unjoined t a.1 a.2 b.1

instance (ps : List (List Char × List Char)) (t : List Char) : Decidable (Settled ps t) :=
  inferInstanceAs (Decidable (List.Pairwise _ ps))

theorem Reads.foldl_replaceFrom (hm : Marks (ps.map Prod.fst)) (hs : Settled ps t) (h : Reads ps t l)
    (rest : List (List Char × List Char)) (hps : ps = done ++ rest) :
    rest.foldl (fun t a => replaceFrom a.1 a.2 0 t) (l.flatMap (Piece.shown done)) = l.flatMap (Piece.shown ps) := by
  induction rest generalizing done with
  | nil => rw [hps, List.append_nil, List.foldl_nil]
  | cons d rest ih =>
    have hnodup := List.Nodup.of_map _ hm.nodup
    rw [hps] at hnodup
    have hnew : d ∉ done := fun hd => List.disjoint_of_nodup_append hnodup hd (List.mem_cons_self ..)
    have hd : d ∈ ps := by simp [hps]
    have hbefore : ∀ a ∈ done, Clear a.2 d.1 ∧ Unjoined t a.1 a.2 d.1 := by
      intro a ha
      unfold Settled at hs
      rw [hps] at hs
      exact (List.pairwise_append.mp hs).2.2 a ha d (List.mem_cons_self ..)
    rw [List.foldl_cons, h.replaceFrom_shown hm hd hnew (fun a ha => (hbefore a ha).1) (fun a ha => (hbefore a ha).2)
      List.suffix_rfl]
    exact ih (by rw [hps, List.append_assoc, List.singleton_append])

/-- What a single pass makes of a text: every placeholder is replaced, and what is put in is not looked at. -/
def Once (ps : List (List Char × List Char)) (t s : List Char) : Prop :=
  ∃ l, Reads ps t l ∧ l.flatMap (Piece.shown ps) = s

theorem once_iff (hm : Marks (ps.map Prod.fst)) (hs : Settled ps t) :
    Once ps t s ↔ s = ps.foldl (fun t a => replaceFrom a.1 a.2 0 t) t := by
  obtain ⟨l, hl⟩ := exists_reads (fun a ha => hm.ne_nil _ (List.mem_map_of_mem ha)) t
  have hfold := hl.foldl_replaceFrom hm hs ps (List.nil_append ps).symm
  rw [hl.flatMap_shown_nil] at hfold
  rw [hfold]
  constructor
  · rintro ⟨l', hl', rfl⟩
    rw [hl.unique hm hl']
  · rintro rfl
    exact ⟨l, hl, rfl⟩

theorem once_singleton (hm : Marks [p]) : Once [(p, v)] t s ↔ s = replaceFrom p v 0 t :=
  once_iff hm (List.pairwise_singleton _ _)

end Text

namespace Fixer

open Text

variable {f : Fixer} {q : FixRequest} {t s : List Char}

/-- What a text becomes in passes for one placeholder after the other. -/
def InTurn : List (List Char × List Char) → List Char → List Char → Prop
  | [], t, s => s = t
  | a :: ps, t, s => ∃ u, Once [a] t u ∧ InTurn ps u s

/-- The placeholders and what stands for them, by their characters. -/
def marks (q : FixRequest) : List (List Char × List Char) := (placeholders q).map fun a => (a.1.toList, a.2.toList)

theorem marks_keys (q : FixRequest) : (marks q).map Prod.fst =
    ["\x7bitem_id\x7d".toList, "\x7btitle\x7d".toList, "\x7bdescription\x7d".toList, "\x7bworkspace\x7d".toList] := by
  simp only [marks, placeholders, List.map_cons, List.map_nil]

theorem marks_keys_apart (q : FixRequest) : Marks ((marks q).map Prod.fst) := by
  rw [marks_keys]
  constructor <;> decide +kernel

theorem toList_argument (q : FixRequest) (template : String) :
    (argument q template).toList = (marks q).foldl (fun t a => replaceFrom a.1 a.2 0 t) template.toList := by
  unfold argument marks
  generalize placeholders q = ps
  induction ps generalizing template with
  | nil => rfl
  | cons a ps ih =>
    rw [List.foldl_cons, ih, List.map_cons, List.foldl_cons, replace, String.toList_ofList]

theorem inTurn_foldl {ps : List (List Char × List Char)} (hm : ∀ a ∈ ps, Marks [a.1]) (t : List Char) :
    InTurn ps t (ps.foldl (fun t a => replaceFrom a.1 a.2 0 t) t) := by
  induction ps generalizing t with
  | nil => rfl
  | cons a ps ih =>
    obtain ⟨ha, hps⟩ := List.forall_mem_cons.mp hm
    exact ⟨_, (once_singleton ha).mpr rfl, ih hps _⟩

/-- Each argument comes from its template by one pass for each placeholder. It is what a single pass for all of them
makes if the placeholders are settled in it. -/
theorem arguments_of_templates (f : Fixer) (q : FixRequest) :
    f.args.Forall₂ (fun template argument => InTurn (marks q) template.toList argument.toList ∧
      (Settled (marks q) template.toList → ∀ s, Once (marks q) template.toList s ↔ s = argument.toList))
      (f.invocation q).args := by
  show f.args.Forall₂ _ (f.args.map (argument q))
  rw [List.forall₂_map_right_iff, List.forall₂_same]
  intro template _
  rw [toList_argument]
  refine ⟨inTurn_foldl (fun a ha => ?_) _, fun hs s => once_iff (marks_keys_apart q) hs⟩
  exact (marks_keys_apart q).singleton (List.mem_map_of_mem ha)

/-- A placeholder can come about around what is put in. -/
example : argument { itemId := "", title := some "Crash", description := "", workspace := "/w" }
    "\x7bti\x7bitem_id\x7dtle\x7d" = "Crash" := by
  decide +kernel

def reporter : Fixer := { command := "report", args := ["\x7bitem_id\x7d: \x7btitle\x7d, \x7bdescription\x7d"] }

def plainRequest : FixRequest :=
  { itemId := "BUG-1", title := none, description := "loop \x7b \x7d", workspace := "/w" }

/-- Braces in a description do no harm. -/
theorem arguments_of_plainRequest :
    Settled (marks plainRequest) "\x7bitem_id\x7d: \x7btitle\x7d, \x7bdescription\x7d".toList ∧
    (reporter.invocation plainRequest).args = ["BUG-1: BUG-1, loop \x7b \x7d"] ∧
    Once (marks plainRequest) "\x7bitem_id\x7d: \x7btitle\x7d, \x7bdescription\x7d".toList
      "BUG-1: BUG-1, loop \x7b \x7d".toList := by
  have hs : Settled (marks plainRequest) "\x7bitem_id\x7d: \x7btitle\x7d, \x7bdescription\x7d".toList := by
    decide +kernel
  have hargs : (reporter.invocation plainRequest).args = ["BUG-1: BUG-1, loop \x7b \x7d"] := by decide +kernel
  have h := arguments_of_templates reporter plainRequest
  rw [hargs] at h
  obtain ⟨⟨-, honce⟩, -⟩ := List.forall₂_cons.mp h
  exact ⟨hs, hargs, (honce hs _).mpr rfl⟩

def quotingRequest : FixRequest :=
  { itemId := "BUG-1", title := some "see \x7bdescription\x7d", description := "the log", workspace := "/w" }

/-- A title that spells a placeholder is expanded. -/
theorem expanded_of_title :
    ({ reporter with args := ["\x7btitle\x7d"] }.invocation quotingRequest).args = ["see the log"] ∧
    Once (marks quotingRequest) "\x7btitle\x7d".toList "see \x7bdescription\x7d".toList ∧
    ¬ Once (marks quotingRequest) "\x7btitle\x7d".toList "see the log".toList := by
  have hmem : ("\x7btitle\x7d".toList, "see \x7bdescription\x7d".toList) ∈ marks quotingRequest := by decide +kernel
  have hr : Reads (marks quotingRequest) "\x7btitle\x7d".toList
      [.slot "\x7btitle\x7d".toList "see \x7bdescription\x7d".toList] := .slot (t := []) hmem .nil
  refine ⟨by decide +kernel, ⟨_, hr, by decide +kernel⟩, ?_⟩
  rintro ⟨l, hl, hs⟩
  rw [← hr.unique (marks_keys_apart _) hl] at hs
  exact absurd hs (by decide +kernel)

end Fixer

end WorkWaves
