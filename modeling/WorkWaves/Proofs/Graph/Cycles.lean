import Mathlib
import WorkWaves.Proofs.Graph.Search

/-!
# What the search for cycles reports

`Waits`: an item waits for another one. The path behind a search is one along which each item waits for the next
(`OnPath`), so what it reports when it comes back to the path is a `Loop`; and since it goes through what an item waits
for only once, no two reports end with the same step (`Closes`). An item is finished after all that it waits for, apart
from the last steps of what is reported (`Explores.descends`). So without these steps no item waits for itself
(`not_transGen_waitsBeside`), and no cycle is reported exactly when there is none (`cycles_eq_nil_iff`).
-/

namespace WorkWaves.Graph

open Relation

variable {g : Graph} {a b x y : String} {path bs fs : List String} {cs : List (List String)} {w w' : Walk}

/-- An item waits for another one. -/
structure Waits (g : Graph) (a b : String) : Prop where
  item : a ∈ g.ids
  blocker_item : b ∈ g.ids
  blocker : b ∈ g.blockersOf a

/-- A way from an item back to it, each step to something that is waited for, on which no item is reached twice. -/
structure Loop (g : Graph) (c : List String) : Prop where
  two_le : 2 ≤ c.length
  back : c.head? = c.getLast?
  chain : c.IsChain g.Waits
  nodup : c.tail.Nodup

namespace Loop

variable {c : List String}

theorem exists_eq (h : g.Loop c) : ∃ b m, c = b :: (m ++ [b]) := by
  have hlen := h.two_le
  have hback := h.back
  cases c with
  | nil => simp at hlen
  | cons b l =>
    rcases List.eq_nil_or_concat' l with rfl | ⟨m, b', rfl⟩
    · simp at hlen
    · rw [List.head?_cons, ← List.cons_append, List.getLast?_concat, Option.some.injEq] at hback
      exact ⟨b, m, by rw [hback]⟩

/-- All items of a loop wait for one another. -/
theorem transGen (h : g.Loop c) (hx : x ∈ c) (hy : y ∈ c) : TransGen g.Waits x y := by
  obtain ⟨b, m, rfl⟩ := h.exists_eq
  have hpair : (b :: (m ++ [b])).Pairwise (TransGen g.Waits) :=
    (h.chain.imp fun _ _ hab => TransGen.single hab).pairwise
  obtain ⟨hfrom, hrest⟩ := List.pairwise_cons.mp hpair
  have hto : ∀ z ∈ b :: (m ++ [b]), TransGen g.Waits z b := by
    intro z hz
    rcases List.mem_cons.mp hz with rfl | hz
    · exact hfrom _ (by simp)
    · rcases List.mem_append.mp hz with hz | hz
      · exact (List.pairwise_append.mp hrest).2.2 z hz b (List.mem_singleton_self b)
      · rw [List.mem_singleton.mp hz]
        exact hfrom _ (by simp)
  rcases List.mem_cons.mp hy with rfl | hy
  · exact hto x hx
  · exact (hto x hx).trans (hfrom y hy)

/-- A loop goes on from each of its items. -/
theorem exists_waits (h : g.Loop c) (hx : x ∈ c) : ∃ y ∈ c, g.Waits x y := by
  obtain ⟨b, m, rfl⟩ := h.exists_eq
  have hmem : x ∈ b :: m := by
    simpa [or_assoc, or_comm, or_left_comm] using hx
  obtain ⟨l, r, hlr⟩ := List.append_of_mem hmem
  have hc : b :: (m ++ [b]) = l ++ x :: (r ++ [b]) := by
    rw [← List.cons_append, hlr, List.append_assoc, List.cons_append]
  obtain ⟨y, r', hr⟩ := List.exists_cons_of_ne_nil (l := r ++ [b]) (by simp)
  have hchain := h.chain
  rw [hc, hr] at hchain ⊢
  exact ⟨y, by simp, (List.isChain_append_cons_cons.mp hchain).2.1⟩

end Loop

/-! ### Coming back to the path -/

theorem closing_append {pre post : List String} (hb : b ∉ pre) :
    closing (pre ++ b :: post) b = (pre ++ [b]).reverse ++ [b] := by
  have htake : (pre ++ b :: post).takeWhile (· != b) = pre := by
    rw [List.takeWhile_append_of_pos (by intro x hx; exact bne_iff_ne.mpr fun he => hb (he ▸ hx))]
    simp
  rw [closing, htake]

/-- The last step of what is reported leads from the end of the path back to the id that is met. -/
theorem suffix_closing (hb : b ∈ a :: path) : [a, b] <:+ closing (a :: path) b := by
  obtain ⟨pre, post, hpath, hnot⟩ := List.eq_append_cons_of_mem hb
  rw [hpath, closing_append hnot]
  cases pre with
  | nil =>
    obtain ⟨rfl, -⟩ := List.cons.inj hpath
    exact List.suffix_rfl
  | cons a' pre =>
    obtain ⟨rfl, -⟩ := List.cons.inj hpath
    exact ⟨(pre ++ [b]).reverse, by simp⟩

/-- Where a search is that goes through the ids `bs` with `path` behind it: each item on the path waits for the one
before it in the list, and the first one waits for all of `bs`. -/
structure OnPath (g : Graph) (path bs : List String) : Prop where
  chain : path.IsChain fun a b => g.Waits b a
  nodup : path.Nodup
  next : ∀ a ∈ path.head?, a ∈ g.ids ∧ ∀ b ∈ bs, b ∈ g.blockersOf a
  todo : bs.Nodup

namespace OnPath

theorem nodup_toList (s : StringSet) : s.toList.Nodup := s.increasing.imp String.ne_of_lt

theorem start : OnPath g [] (StringSet.ofList g.ids).toList :=
  ⟨.nil, .nil, by simp, nodup_toList _⟩

theorem rest (h : OnPath g path (b :: bs)) : OnPath g path bs where
  chain := h.chain
  nodup := h.nodup
  next a ha := ⟨(h.next a ha).1, fun x hx => (h.next a ha).2 x (List.mem_cons_of_mem b hx)⟩
  todo := (List.nodup_cons.mp h.todo).2

theorem waits (h : OnPath g path (b :: bs)) (ha : a ∈ path.head?) (hb : b ∈ g.ids) : g.Waits a b :=
  ⟨(h.next a ha).1, hb, (h.next a ha).2 b (List.mem_cons_self ..)⟩

theorem enter (h : OnPath g path (b :: bs)) (hb : b ∈ g.ids) (hp : b ∉ path) :
    OnPath g (b :: path) (g.blockersOf b).toList where
  chain := h.chain.cons fun _ ha => h.waits ha hb
  nodup := List.nodup_cons.mpr ⟨hp, h.nodup⟩
  next a ha := by
    obtain rfl : b = a := by simpa using ha
    exact ⟨hb, fun x hx => hx⟩
  todo := nodup_toList _

theorem loop (h : OnPath g path (b :: bs)) (hb : b ∈ g.ids) (hp : b ∈ path) : g.Loop (closing path b) := by
  obtain ⟨pre, post, rfl, hnot⟩ := List.eq_append_cons_of_mem hp
  have hsplit : pre ++ b :: post = (pre ++ [b]) ++ post := by simp
  have hchain := h.chain
  have hnodup := h.nodup
  rw [hsplit] at hchain hnodup
  rw [closing_append hnot]
  refine ⟨by simp, ?_, ?_, ?_⟩
  · rw [List.getLast?_concat]
    simp
  · refine (List.isChain_reverse.mpr hchain.left_of_append).append (.singleton b) fun x hx y hy => ?_
    obtain rfl : b = y := by simpa using hy
    refine h.waits ?_ hb
    rw [List.getLast?_reverse] at hx
    rw [hsplit, List.head?_append, Option.mem_def.mp hx]
    rfl
  · have hrev : (pre ++ [b]).reverse.Nodup := List.nodup_reverse.mpr hnodup.of_append_left
    simp only [List.reverse_append, List.reverse_singleton, List.cons_append, List.tail_cons] at hrev ⊢
    exact (List.perm_append_singleton b pre.reverse).nodup_iff.mpr hrev

end OnPath

/-! ### No report twice -/

theorem eq_of_suffix_pair {c : List String} (h : [a, b] <:+ c) (h' : [x, y] <:+ c) : a = x ∧ b = y := by
  have he : [a, b] = [x, y] := (List.suffix_of_suffix_length_le h h' (Nat.le_refl 2)).eq_of_length rfl
  simpa using he

/-- What a search may report that finishes the items `fs`: different loops, each ending with a step from one of these
items, or from the end of the path to an id that the search goes through. -/
structure Closes (g : Graph) (path bs fs : List String) (cs : List (List String)) : Prop where
  loop : ∀ c ∈ cs, g.Loop c
  last : ∀ c ∈ cs, ∃ a b, [a, b] <:+ c ∧ (a ∈ fs ∨ a ∈ path.head? ∧ b ∈ bs)
  nodup : cs.Nodup

namespace Closes

theorem nil : Closes g path [] [] [] :=
  ⟨by simp, by simp, .nil⟩

theorem mono (h : Closes g path bs fs cs) : Closes g path (b :: bs) fs cs where
  loop := h.loop
  last c hc := by
    obtain ⟨a, x, hax, hfrom⟩ := h.last c hc
    exact ⟨a, x, hax, hfrom.imp_right fun hx => ⟨hx.1, List.mem_cons_of_mem b hx.2⟩⟩
  nodup := h.nodup

theorem close (h : Closes g path bs fs cs) (hpath : OnPath g path (b :: bs)) (hb : b ∈ g.ids) (hp : b ∈ path)
    (hfs : ∀ x ∈ path, x ∉ fs) : Closes g path (b :: bs) fs (closing path b :: cs) := by
  obtain ⟨a, path, rfl⟩ := List.exists_cons_of_ne_nil (List.ne_nil_of_mem hp)
  have hlast : [a, b] <:+ closing (a :: path) b := suffix_closing hp
  refine ⟨fun c hc => ?_, fun c hc => ?_, List.nodup_cons.mpr ⟨fun hc => ?_, h.nodup⟩⟩
  · rcases List.mem_cons.mp hc with rfl | hc
    · exact hpath.loop hb hp
    · exact h.loop c hc
  · rcases List.mem_cons.mp hc with rfl | hc
    · exact ⟨a, b, hlast, .inr ⟨by simp, List.mem_cons_self ..⟩⟩
    · exact h.mono.last c hc
  · -- A second report that ends with this step would start from `a` as well, and go to something behind `b`.
    obtain ⟨a', b', hlast', hfrom⟩ := h.last _ hc
    obtain ⟨rfl, rfl⟩ := eq_of_suffix_pair hlast hlast'
    rcases hfrom with ha | ⟨-, hb'⟩
    · exact hfs a (List.mem_cons_self ..) ha
    · exact (List.nodup_cons.mp hpath.todo).1 hb'

theorem enter {bs' fs' : List String} {cs' : List (List String)} (h : Closes g (b :: path) bs' fs' cs')
    (h' : Closes g path bs fs cs) (hapart : (path ++ (fs ++ b :: fs')).Nodup) :
    Closes g path (b :: bs) (fs ++ b :: fs') (cs' ++ cs) := by
  obtain ⟨-, hfin, hpath⟩ := List.nodup_append.mp hapart
  obtain ⟨-, -, hfs⟩ := List.nodup_append.mp hfin
  have hfrom : ∀ c ∈ cs', ∃ a x, [a, x] <:+ c ∧ a ∈ b :: fs' := by
    intro c hc
    obtain ⟨a, x, hax, ha | ⟨ha, -⟩⟩ := h.last c hc
    · exact ⟨a, x, hax, List.mem_cons_of_mem b ha⟩
    · obtain rfl : b = a := by simpa using ha
      exact ⟨b, x, hax, List.mem_cons_self ..⟩
  refine ⟨fun c hc => (List.mem_append.mp hc).elim (h.loop c) (h'.loop c), fun c hc => ?_,
    List.nodup_append.mpr ⟨h.nodup, h'.nodup, ?_⟩⟩
  · rcases List.mem_append.mp hc with hc | hc
    · obtain ⟨a, x, hax, ha⟩ := hfrom c hc
      exact ⟨a, x, hax, .inl (List.mem_append_right fs ha)⟩
    · obtain ⟨a, x, hax, ha⟩ := h'.mono.last c hc
      exact ⟨a, x, hax, ha.imp_left (List.mem_append_left (b :: fs'))⟩
  · rintro c hc _ hc' rfl
    obtain ⟨a, x, hax, ha⟩ := hfrom c hc
    obtain ⟨a', x', hax', ha'⟩ := h'.last c hc'
    obtain ⟨rfl, -⟩ := eq_of_suffix_pair hax hax'
    rcases ha' with ha' | ⟨ha', -⟩
    · exact hfs a ha' a ha rfl
    · exact hpath a (List.mem_of_mem_head? ha') a (List.mem_append_right fs ha) rfl

end Closes

/-- What a search adds to a walk. -/
theorem Explores.closes (h : Explores g path bs w w') (hpath : OnPath g path bs) (hw : (path ++ w.finished).Nodup) :
    ∃ fs cs, w'.finished = fs ++ w.finished ∧ w'.cycles = w.cycles ++ cs ∧ (path ++ w'.finished).Nodup ∧
      Closes g path bs fs cs := by
  induction h with
  | nil => exact ⟨[], [], rfl, by simp, hw, .nil⟩
  | stranger _ _ ih | finished _ _ _ _ ih =>
    obtain ⟨fs, cs, hfs, hcs, hn, hcl⟩ := ih hpath.rest hw
    exact ⟨fs, cs, hfs, hcs, hn, hcl.mono⟩
  | @close path bs b w w' hb hp _ ih =>
    obtain ⟨fs, cs, hfs, hcs, hn, hcl⟩ := ih hpath.rest hw
    refine ⟨fs, closing path b :: cs, hfs, by simp [hcs], hn, hcl.close hpath hb hp fun x hx hx' => ?_⟩
    rw [hfs] at hn
    exact (List.nodup_append.mp hn).2.2 x hx x (List.mem_append_left _ hx') rfl
  | @enter path bs b w v w' hb hp hf _ _ ihv ih =>
    have hbw : (b :: path ++ w.finished).Nodup := by
      rw [List.cons_append, List.nodup_cons, List.mem_append, not_or]
      exact ⟨⟨hp, hf⟩, hw⟩
    obtain ⟨fs', cs', hfs', hcs', hn', hcl'⟩ := ihv (hpath.enter hb hp) hbw
    have hbv : (path ++ b :: v.finished).Nodup := List.perm_middle.nodup_iff.mpr hn'
    obtain ⟨fs, cs, hfs, hcs, hn, hcl⟩ := ih hpath.rest hbv
    refine ⟨fs ++ b :: fs', cs' ++ cs, by simp [hfs, hfs'], by simp [hcs, hcs'], hn, hcl'.enter hcl ?_⟩
    have hall : path ++ w'.finished = path ++ (fs ++ b :: fs') ++ w.finished := by simp [hfs, hfs']
    rw [hall] at hn
    exact hn.of_append_left

theorem exists_closes (g : Graph) : ∃ fs, Closes g [] (StringSet.ofList g.ids).toList fs g.cycles := by
  obtain ⟨w, hw, hcycles⟩ := explores_ids g
  obtain ⟨fs, cs, -, hcs, -, hcl⟩ := hw.closes .start (by simp)
  have he : cs = g.cycles := by
    rw [← hcycles, hcs]
    rfl
  exact ⟨fs, he ▸ hcl⟩

theorem loop_of_mem_cycles {c : List String} (hc : c ∈ g.cycles) : g.Loop c :=
  let ⟨_, h⟩ := exists_closes g
  h.loop c hc

theorem cycles_nodup : g.cycles.Nodup :=
  let ⟨_, h⟩ := exists_closes g
  h.nodup

/-! ### Every cycle has a step that ends a report -/

/-- Items of which each has its steps only to items further down. -/
def Descends (R : String → String → Prop) : List String → Prop
  | [] => True
  | a :: l => (∀ b, R a b → b ∈ l) ∧ Descends R l

namespace Descends

variable {R : String → String → Prop} {l : List String}

theorem mem_of_transGen (h : Descends R l) (hx : x ∈ l) (hxy : TransGen R x y) : y ∈ l := by
  have step {l : List String} (h : Descends R l) {x y : String} (hx : x ∈ l) (hxy : R x y) : y ∈ l := by
    induction l with
    | nil => cases hx
    | cons a l ih =>
      rcases List.mem_cons.mp hx with rfl | hx
      · exact List.mem_cons_of_mem _ (h.1 y hxy)
      · exact List.mem_cons_of_mem _ (ih h.2 hx)
  induction hxy with
  | single hxy => exact step h hx hxy
  | tail _ hbc ih => exact step h ih hbc

theorem not_transGen_self (h : Descends R l) (hx : x ∈ l) : ¬ TransGen R x x := by
  induction l with
  | nil => cases hx
  | cons a l ih =>
    intro hxx
    rcases List.mem_cons.mp hx with rfl | hx
    · obtain ⟨b, hab, hba⟩ := TransGen.head'_iff.mp hxx
      have hb : b ∈ l := h.1 b hab
      have hx : x ∈ l := by
        rcases reflTransGen_iff_eq_or_transGen.mp hba with rfl | hba
        · exact hb
        · exact mem_of_transGen h.2 hb hba
      exact ih h.2 hx hxx
    · exact ih h.2 hx hxx

end Descends

/-- An item waits for another one, and none of some paths ends with this step. -/
structure WaitsBeside (g : Graph) (cs : List (List String)) (a b : String) : Prop where
  waits : g.Waits a b
  beside : ∀ c ∈ cs, ¬ [a, b] <:+ c

theorem Explores.subset (h : Explores g path bs w w') :
    (∀ x ∈ w.finished, x ∈ w'.finished) ∧ ∀ c ∈ w.cycles, c ∈ w'.cycles := by
  induction h with
  | nil => exact ⟨fun _ hx => hx, fun _ hc => hc⟩
  | stranger _ _ ih | finished _ _ _ _ ih => exact ih
  | close _ _ _ ih => exact ⟨ih.1, fun c hc => ih.2 c (List.mem_append_left _ hc)⟩
  | enter _ _ _ _ _ ihv ih =>
    exact ⟨fun x hx => ih.1 x (List.mem_cons_of_mem _ (ihv.1 x hx)), fun c hc => ih.2 c (ihv.2 c hc)⟩

/-- A search finishes what it goes through, or reports it, and each item after all that it waits for, the last steps
of reports apart. -/
theorem Explores.descends (h : Explores g path bs w w') (hcs : ∀ c ∈ w'.cycles, c ∈ cs) :
    (Descends (g.WaitsBeside cs) w.finished → Descends (g.WaitsBeside cs) w'.finished) ∧
      ∀ b ∈ bs, b ∈ g.ids → b ∈ w'.finished ∨ b ∈ path ∧ closing path b ∈ w'.cycles := by
  induction h with
  | nil => exact ⟨id, by simp⟩
  | stranger hb _ ih =>
    obtain ⟨hdesc, hdone⟩ := ih hcs
    refine ⟨hdesc, fun x hx hid => ?_⟩
    rcases List.mem_cons.mp hx with rfl | hx
    · exact absurd hid hb
    · exact hdone x hx hid
  | close _ hp hrest ih =>
    obtain ⟨hdesc, hdone⟩ := ih hcs
    refine ⟨hdesc, fun x hx hid => ?_⟩
    rcases List.mem_cons.mp hx with rfl | hx
    · exact .inr ⟨hp, hrest.subset.2 _ (by simp)⟩
    · exact hdone x hx hid
  | finished _ _ hf hrest ih =>
    obtain ⟨hdesc, hdone⟩ := ih hcs
    refine ⟨hdesc, fun x hx hid => ?_⟩
    rcases List.mem_cons.mp hx with rfl | hx
    · exact .inl (hrest.subset.1 x hf)
    · exact hdone x hx hid
  | @enter path bs b w v w' _ _ _ _ hrest ihv ih =>
    obtain ⟨hdescv, hdonev⟩ := ihv fun c hc => hcs c (hrest.subset.2 c hc)
    obtain ⟨hdesc, hdone⟩ := ih hcs
    refine ⟨fun hw => hdesc ⟨fun x hx => ?_, hdescv hw⟩, fun x hx hid => ?_⟩
    · refine (hdonev x hx.waits.blocker hx.waits.blocker_item).resolve_right fun hx' => ?_
      exact hx.beside _ (hcs _ (hrest.subset.2 _ hx'.2)) (suffix_closing hx'.1)
    · rcases List.mem_cons.mp hx with rfl | hx
      · exact .inl (hrest.subset.1 x (List.mem_cons_self ..))
      · exact hdone x hx hid

/-- Without the last steps of what is reported, no item waits for itself. -/
theorem not_transGen_waitsBeside (g : Graph) (x : String) : ¬ TransGen (g.WaitsBeside g.cycles) x x := by
  intro hx
  obtain ⟨w, hw, hcycles⟩ := explores_ids g
  have hcs : ∀ c ∈ w.cycles, c ∈ g.cycles := fun c hc => hcycles ▸ hc
  obtain ⟨hdesc, hdone⟩ := hw.descends hcs
  obtain ⟨y, hxy, -⟩ := TransGen.head'_iff.mp hx
  have hfin : x ∈ w.finished :=
    (hdone x (StringSet.mem_ofList.mpr hxy.waits.item) hxy.waits.item).resolve_right (by simp)
  exact (hdesc trivial).not_transGen_self hfin hx

/-- A graph has no reported cycle just when no item waits for itself. -/
theorem cycles_eq_nil_iff : g.cycles = [] ↔ ¬ ∃ x, TransGen g.Waits x x := by
  constructor
  · rintro hc ⟨x, hx⟩
    refine not_transGen_waitsBeside g x (TransGen.mono (fun a b hab => ?_) x x hx)
    exact ⟨hab, by simp [hc]⟩
  · intro hno
    refine List.eq_nil_iff_forall_not_mem.mpr fun c hc => hno ?_
    have hloop := loop_of_mem_cycles hc
    obtain ⟨b, m, rfl⟩ := hloop.exists_eq
    exact ⟨b, hloop.transGen (List.mem_cons_self ..) (List.mem_cons_self ..)⟩

/-- A graph is refused for a cycle and for nothing else. -/
theorem validate_eq_error {e : GraphError} :
    g.validate = .error e ↔ (∃ x, TransGen g.Waits x x) ∧ e = .circular g.cycles := by
  rw [← not_not (a := ∃ x, _), ← cycles_eq_nil_iff]
  unfold validate
  split
  · next hc => simp [List.isEmpty_iff.mp hc]
  · next hc =>
    simp only [List.isEmpty_iff] at hc
    simp [hc, eq_comm]

variable {items : List Item} {external : StringSet} {policy : OrphanPolicy}

theorem Built.waits_iff (h : Built items external policy g) :
    g.Waits a b ↔ (∃ i ∈ items, i.id = a ∧ Awaits items external policy i b) ∧ ∃ j ∈ items, j.id = b := by
  have hids : ∀ x, x ∈ g.ids ↔ ∃ i ∈ items, i.id = x := fun x => by
    rw [h.ids_perm.mem_iff, List.mem_map]
  constructor
  · rintro ⟨ha, hb, hab⟩
    obtain ⟨i, hi, rfl⟩ := (hids a).mp ha
    exact ⟨⟨i, hi, rfl, (h.mem_blockersOf hi).mp hab⟩, (hids b).mp hb⟩
  · rintro ⟨⟨i, hi, rfl, hab⟩, hb⟩
    exact ⟨(hids i.id).mpr ⟨i, hi, rfl⟩, (hids b).mpr hb, (h.mem_blockersOf hi).mpr hab⟩

/-- The search through the items of a graph, without a bound on its steps, comes to an end and reports what `cycles`
says. These are loops along what items of the graph await, each reported once. Without the last steps of these loops no
item waits for itself, so none is reported exactly when there is no cycle. -/
theorem loops_of_build (hg : Graph.build items external policy = .ok g) :
    (∃ w, g.Explores [] (StringSet.ofList g.ids).toList {} w) ∧
    (∀ w, g.Explores [] (StringSet.ofList g.ids).toList {} w → w.cycles = g.cycles) ∧
    (∀ a b, g.Waits a b ↔
      (∃ i ∈ items, i.id = a ∧ Awaits items external policy i b) ∧ ∃ j ∈ items, j.id = b) ∧
    (∀ c ∈ g.cycles, 2 ≤ c.length ∧ c.head? = c.getLast? ∧ c.IsChain g.Waits ∧ c.tail.Nodup) ∧
    g.cycles.Nodup ∧
    (¬ ∃ x, TransGen (fun a b => g.Waits a b ∧ ∀ c ∈ g.cycles, ¬ [a, b] <:+ c) x x) ∧
    (g.cycles = [] ↔ ¬ ∃ x, TransGen g.Waits x x) := by
  obtain ⟨w, hw, hcycles⟩ := explores_ids g
  refine ⟨⟨w, hw⟩, fun w' hw' => ?_, fun a b => (built_of_build hg).waits_iff, fun c hc => ?_, cycles_nodup, ?_,
    cycles_eq_nil_iff⟩
  · rw [hw'.unique hw, hcycles]
  · have hloop := loop_of_mem_cycles hc
    exact ⟨hloop.two_le, hloop.back, hloop.chain, hloop.nodup⟩
  · rintro ⟨x, hx⟩
    exact not_transGen_waitsBeside g x (TransGen.mono (fun a b hab => ⟨hab.1, hab.2⟩) x x hx)

/-- The items `a`, `b` and `c` are on two cycles with a step in common, `d` waits for itself, and `e` waits for `d` and for
an orphan. -/
def tangle : List Item :=
  [{ id := "a", blockedBy := .ofList ["b", "c"] }, { id := "b", blockedBy := .ofList ["a"] },
    { id := "c", blockedBy := .ofList ["b"] }, { id := "d", blockedBy := .ofList ["d"] },
    { id := "e", blockedBy := .ofList ["d", "ghost"] }]

theorem cycles_tangle (hg : Graph.build tangle ∅ .block = .ok g) : g.cycles = [["a", "b", "a"], ["d", "d"]] := by
  have h : (Graph.build tangle ∅ .block).map cycles = .ok [["a", "b", "a"], ["d", "d"]] := by cbv
  rw [hg] at h
  exact Except.ok.inj h

theorem loops_of_tangle : ∃ g, Graph.build tangle ∅ .block = .ok g ∧ g.cycles = [["a", "b", "a"], ["d", "d"]] ∧
    (∃ w, g.Explores [] (StringSet.ofList g.ids).toList {} w) ∧
    (∀ w, g.Explores [] (StringSet.ofList g.ids).toList {} w → w.cycles = g.cycles) ∧
    (∀ a b, g.Waits a b ↔ (∃ i ∈ tangle, i.id = a ∧ Awaits tangle ∅ .block i b) ∧ ∃ j ∈ tangle, j.id = b) ∧
    (∀ c ∈ g.cycles, 2 ≤ c.length ∧ c.head? = c.getLast? ∧ c.IsChain g.Waits ∧ c.tail.Nodup) ∧
    g.cycles.Nodup ∧
    (¬ ∃ x, TransGen (fun a b => g.Waits a b ∧ ∀ c ∈ g.cycles, ¬ [a, b] <:+ c) x x) ∧
    (g.cycles = [] ↔ ¬ ∃ x, TransGen g.Waits x x) := by
  obtain ⟨g, hg⟩ : ∃ g, Graph.build tangle ∅ .block = .ok g := build_eq_ok_of_nodup (by decide)
  exact ⟨g, hg, cycles_tangle hg, loops_of_build hg⟩

end WorkWaves.Graph
