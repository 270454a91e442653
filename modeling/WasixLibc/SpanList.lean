/-
Lists of half-open spans in address order.

The entries are of any type with a lower and an upper bound.  Cutting an entry
into consecutive pieces, or merging consecutive entries into one, changes
neither the order nor the points covered; `Subdivides` states that relation
once for a whole list.
-/
import WasixLibc.Bisect
import Mathlib.Data.List.Chain

namespace WasixLibc

universe u v

namespace SpanList

variable {A : Type u} (lo hi : A → Nat)

/-- `x` lies in the span of `a`. -/
def Holds (a : A) (x : Nat) : Prop := lo a ≤ x ∧ x < hi a

instance (a : A) (x : Nat) : Decidable (Holds lo hi a x) :=
  inferInstanceAs (Decidable (_ ∧ _))

/-- Every entry ends before every later one starts. -/
def Ordered (l : List A) : Prop := l.Pairwise fun a b => hi a ≤ lo b

def Covers (l : List A) (x : Nat) : Prop := ∃ a ∈ l, Holds lo hi a x

/-- The first entry holding `x`. -/
def lookup (l : List A) (x : Nat) : Option A :=
  l.find? fun a => decide (Holds lo hi a x)

/-- What the first entry holding `x` has there. -/
def imageAt {B : Type v} (f : A → Nat → B) (l : List A) (x : Nat) : Option B :=
  (lookup lo hi l x).map fun a => f a x

/-- The entries follow one another without gap from `start` to `stop`. -/
def Tiles : Nat → List A → Nat → Prop
  | start, [], stop => start = stop
  | start, a :: l, stop => lo a = start ∧ start < hi a ∧ Tiles (hi a) l stop

/-- `fine` cuts each entry of `coarse` into consecutive pieces. -/
inductive Subdivides : List A → List A → Prop
  | nil : Subdivides [] []
  | cons {a : A} {pieces coarse fine : List A} :
      Tiles lo hi (lo a) pieces (hi a) → Subdivides coarse fine →
      Subdivides (a :: coarse) (pieces ++ fine)

variable {lo hi}

theorem lookup_append (l₁ l₂ : List A) (x : Nat) :
    lookup lo hi (l₁ ++ l₂) x = (lookup lo hi l₁ x).or (lookup lo hi l₂ x) := by
  simp [lookup, List.find?_append]

theorem lookup_eq_none_iff {l : List A} {x : Nat} :
    lookup lo hi l x = none ↔ ¬ Covers lo hi l x := by
  simp [lookup, Covers]

theorem lookup_mem {l : List A} {x : Nat} {a : A} (ha : lookup lo hi l x = some a) :
    a ∈ l ∧ Holds lo hi a x := by
  refine ⟨List.mem_of_find?_eq_some ha, ?_⟩
  have hdec := List.find?_some ha
  simpa using hdec

theorem covers_append {l₁ l₂ : List A} {x : Nat} :
    Covers lo hi (l₁ ++ l₂) x ↔ Covers lo hi l₁ x ∨ Covers lo hi l₂ x := by
  simp only [Covers, List.mem_append, or_and_right, exists_or]

theorem covers_cons {a : A} {l : List A} {x : Nat} :
    Covers lo hi (a :: l) x ↔ Holds lo hi a x ∨ Covers lo hi l x := by
  simp only [Covers, List.mem_cons, or_and_right, exists_or, exists_eq_left]

/-- In an ordered list of nonempty spans the entry holding a point is
unique. -/
theorem eq_of_holds {l : List A} (hord : Ordered lo hi l) {a b : A} {x : Nat}
    (ha : a ∈ l) (hb : b ∈ l) (hax : Holds lo hi a x) (hbx : Holds lo hi b x) :
    a = b := by
  induction l with
  | nil => simp at ha
  | cons head tail ih =>
      have hcons := List.pairwise_cons.mp hord
      rcases List.mem_cons.mp ha with rfl | ha'
      · rcases List.mem_cons.mp hb with rfl | hb'
        · rfl
        · have hle := hcons.1 b hb'
          have h₁ := hax.2
          have h₂ := hbx.1
          omega
      · rcases List.mem_cons.mp hb with rfl | hb'
        · have hle := hcons.1 a ha'
          have h₁ := hbx.2
          have h₂ := hax.1
          omega
        · exact ih hcons.2 ha' hb'

/-- What lies beside an element of an ordered list misses it. -/
theorem not_holds_of_ordered {pre post : List A} {a b : A} {x : Nat}
    (hord : Ordered lo hi (pre ++ a :: post)) (hb : b ∈ pre ++ post)
    (hx : Holds lo hi b x) : ¬ Holds lo hi a x := by
  obtain ⟨_, hbehind, hfront⟩ := List.pairwise_append.mp hord
  rintro ⟨hlow, hhigh⟩
  obtain ⟨hlow', hhigh'⟩ := hx
  rcases List.mem_append.mp hb with hb | hb
  · have hgap := hfront b hb a List.mem_cons_self
    omega
  · have hgap := (List.pairwise_cons.mp hbehind).1 b hb
    omega

theorem lookup_eq_some_of_holds {l : List A} (hord : Ordered lo hi l) {a : A}
    {x : Nat} (ha : a ∈ l) (hax : Holds lo hi a x) : lookup lo hi l x = some a := by
  cases hfound : lookup lo hi l x with
  | none => exact absurd ⟨a, ha, hax⟩ (lookup_eq_none_iff.mp hfound)
  | some b =>
      obtain ⟨hb, hbx⟩ := lookup_mem hfound
      rw [eq_of_holds hord hb ha hbx hax]

/-- A new span between two parts of an ordered list. -/
theorem ordered_insert {pre post : List A} {a : A} (hord : Ordered lo hi (pre ++ post))
    (ha : lo a ≤ hi a) (hpre : ∀ b ∈ pre, hi b ≤ lo a)
    (hpost : ∀ b ∈ post, hi a ≤ lo b) : Ordered lo hi (pre ++ a :: post) := by
  unfold Ordered at hord ⊢
  rw [List.pairwise_append] at hord ⊢
  obtain ⟨hl, hr, hlr⟩ := hord
  refine ⟨hl, List.pairwise_cons.mpr ⟨hpost, hr⟩, ?_⟩
  intro b hb c hc
  rcases List.mem_cons.mp hc with rfl | hc'
  · exact hpre b hb
  · exact hlr b hb c hc'

theorem Tiles.le {start stop : Nat} {l : List A} (h : Tiles lo hi start l stop) :
    start ≤ stop := by
  induction l generalizing start with
  | nil => exact Nat.le_of_eq h
  | cons a l ih =>
      obtain ⟨_, hlt, htail⟩ := h
      exact Nat.le_trans (Nat.le_of_lt hlt) (ih htail)

theorem Tiles.bounds {start stop : Nat} {l : List A} (h : Tiles lo hi start l stop) :
    ∀ a ∈ l, start ≤ lo a ∧ lo a < hi a ∧ hi a ≤ stop := by
  induction l generalizing start with
  | nil => simp
  | cons a l ih =>
      obtain ⟨heq, hlt, htail⟩ := h
      intro b hb
      rcases List.mem_cons.mp hb with rfl | hb'
      · exact ⟨Nat.le_of_eq heq.symm, heq ▸ hlt, htail.le⟩
      · obtain ⟨h₁, h₂, h₃⟩ := ih htail b hb'
        exact ⟨Nat.le_trans (Nat.le_of_lt hlt) h₁, h₂, h₃⟩

theorem Tiles.ordered {start stop : Nat} {l : List A} (h : Tiles lo hi start l stop) :
    Ordered lo hi l := by
  induction l generalizing start with
  | nil => exact List.Pairwise.nil
  | cons a l ih =>
      obtain ⟨_, _, htail⟩ := h
      refine List.pairwise_cons.mpr ⟨?_, ih htail⟩
      intro b hb
      exact (htail.bounds b hb).1

theorem Tiles.covers_iff {start stop : Nat} {l : List A}
    (h : Tiles lo hi start l stop) (x : Nat) :
    Covers lo hi l x ↔ start ≤ x ∧ x < stop := by
  induction l generalizing start with
  | nil =>
      simp only [Tiles] at h
      simp only [Covers, List.not_mem_nil, false_and, exists_false, false_iff]
      omega
  | cons a l ih =>
      obtain ⟨heq, hlt, htail⟩ := h
      have hle := htail.le
      rw [covers_cons, ih htail, Holds]
      omega

section

variable {B : Type v} {f : A → Nat → B} {x : Nat}

theorem imageAt_append (l₁ l₂ : List A) :
    imageAt lo hi f (l₁ ++ l₂) x = (imageAt lo hi f l₁ x).or (imageAt lo hi f l₂ x) := by
  simp only [imageAt, lookup_append, Option.map_or]

theorem imageAt_cons (a : A) (l : List A) :
    imageAt lo hi f (a :: l) x =
      if Holds lo hi a x then some (f a x) else imageAt lo hi f l x := by
  by_cases hx : Holds lo hi a x <;> simp [imageAt, lookup, hx]

theorem imageAt_eq_none {l : List A} (h : ¬ Covers lo hi l x) :
    imageAt lo hi f l x = none := by
  rw [imageAt, lookup_eq_none_iff.mpr h, Option.map_none]

theorem imageAt_of_holds {l : List A} (hord : Ordered lo hi l) {a : A} (ha : a ∈ l)
    (hax : Holds lo hi a x) : imageAt lo hi f l x = some (f a x) := by
  rw [imageAt, lookup_eq_some_of_holds hord ha hax, Option.map_some]

/-- If whichever piece of a tiling holds `x` has `b` there, so has the
tiling. -/
theorem Tiles.imageAt_eq {start stop : Nat} {l : List A} {b : B}
    (h : Tiles lo hi start l stop) (hb : ∀ a ∈ l, Holds lo hi a x → f a x = b) :
    imageAt lo hi f l x = if start ≤ x ∧ x < stop then some b else none := by
  by_cases hx : start ≤ x ∧ x < stop
  · obtain ⟨a, ha, hax⟩ := (h.covers_iff x).mpr hx
    rw [if_pos hx, imageAt_of_holds h.ordered ha hax, hb a ha hax]
  · rw [if_neg hx]
    exact imageAt_eq_none fun hcov => hx ((h.covers_iff x).mp hcov)

end

theorem Subdivides.refl_of_pos {l : List A} (hpos : ∀ a ∈ l, lo a < hi a) :
    Subdivides lo hi l l := by
  induction l with
  | nil => exact .nil
  | cons a l ih =>
      have htile : Tiles lo hi (lo a) [a] (hi a) :=
        ⟨rfl, hpos a List.mem_cons_self, rfl⟩
      exact .cons htile (ih fun b hb => hpos b (List.mem_cons_of_mem a hb))

theorem Subdivides.append {c₁ f₁ c₂ f₂ : List A} (h₁ : Subdivides lo hi c₁ f₁)
    (h₂ : Subdivides lo hi c₂ f₂) : Subdivides lo hi (c₁ ++ c₂) (f₁ ++ f₂) := by
  induction h₁ with
  | nil => exact h₂
  | cons htile _ ih =>
      rw [List.cons_append, List.append_assoc]
      exact .cons htile ih

theorem Subdivides.covers_iff {coarse fine : List A}
    (h : Subdivides lo hi coarse fine) (x : Nat) :
    Covers lo hi fine x ↔ Covers lo hi coarse x := by
  induction h with
  | nil => rfl
  | cons htile _ ih => rw [covers_append, covers_cons, ih, htile.covers_iff, Holds]

theorem tiles_append {start stop : Nat} {l₁ l₂ : List A} :
    Tiles lo hi start (l₁ ++ l₂) stop ↔
      ∃ mid, Tiles lo hi start l₁ mid ∧ Tiles lo hi mid l₂ stop := by
  induction l₁ generalizing start with
  | nil => simp [Tiles]
  | cons a l ih => simp only [List.cons_append, Tiles, ih, exists_and_left, and_assoc]

theorem Subdivides.tiles {coarse fine : List A} (h : Subdivides lo hi coarse fine)
    {start stop : Nat} (ht : Tiles lo hi start coarse stop) :
    Tiles lo hi start fine stop := by
  induction h generalizing start with
  | nil => exact ht
  | cons htile _ ih =>
      obtain ⟨heq, _, htail⟩ := ht
      exact tiles_append.mpr ⟨_, heq ▸ htile, ih htail⟩

theorem Subdivides.split {c₁ c₂ fine : List A} (h : Subdivides lo hi (c₁ ++ c₂) fine) :
    ∃ f₁ f₂, fine = f₁ ++ f₂ ∧ Subdivides lo hi c₁ f₁ ∧ Subdivides lo hi c₂ f₂ := by
  induction c₁ generalizing fine with
  | nil => exact ⟨[], fine, rfl, .nil, h⟩
  | cons a c ih =>
      cases h with
      | cons htile hrest =>
          obtain ⟨f₁, f₂, rfl, h₁, h₂⟩ := ih hrest
          exact ⟨_, f₂, (List.append_assoc _ _ _).symm, .cons htile h₁, h₂⟩

theorem Subdivides.trans {a b c : List A} (hab : Subdivides lo hi a b)
    (hbc : Subdivides lo hi b c) : Subdivides lo hi a c := by
  induction hab generalizing c with
  | nil => exact hbc
  | cons htile _ ih =>
      obtain ⟨f₁, f₂, rfl, h₁, h₂⟩ := hbc.split
      exact .cons (h₁.tiles htile) (ih h₂)

/-- Every piece lies inside the entry it was cut from. -/
theorem Subdivides.exists_coarse {coarse fine : List A}
    (h : Subdivides lo hi coarse fine) {p : A} (hp : p ∈ fine) :
    ∃ a ∈ coarse, lo a ≤ lo p ∧ hi p ≤ hi a := by
  induction h with
  | nil => simp at hp
  | @cons a pieces coarse fine htile _ ih =>
      rcases List.mem_append.mp hp with hpiece | hrest
      · obtain ⟨h₁, _, h₃⟩ := htile.bounds p hpiece
        exact ⟨a, List.mem_cons_self, h₁, h₃⟩
      · obtain ⟨b, hb, hbounds⟩ := ih hrest
        exact ⟨b, List.mem_cons_of_mem a hb, hbounds⟩

theorem Subdivides.ordered {coarse fine : List A} (h : Subdivides lo hi coarse fine)
    (hord : Ordered lo hi coarse) : Ordered lo hi fine := by
  induction h with
  | nil => exact List.Pairwise.nil
  | cons htile hrest ih =>
      obtain ⟨hhead, htail⟩ := List.pairwise_cons.mp hord
      refine List.pairwise_append.mpr ⟨htile.ordered, ih htail, ?_⟩
      intro p hp q hq
      obtain ⟨b, hb, hlow, _⟩ := hrest.exists_coarse hq
      have hupper := (htile.bounds p hp).2.2
      have hgap := hhead b hb
      omega

/-- An entry has at least one piece starting where it starts and one ending
where it ends, so order is inherited upwards too. -/
theorem Subdivides.ordered_coarse {coarse fine : List A}
    (h : Subdivides lo hi coarse fine) (hpos : ∀ a ∈ coarse, lo a < hi a)
    (hord : Ordered lo hi fine) : Ordered lo hi coarse := by
  induction h with
  | nil => exact List.Pairwise.nil
  | @cons a pieces coarse fine htile hrest ih =>
      obtain ⟨_, hfine, hcross⟩ := List.pairwise_append.mp hord
      have htail : ∀ b ∈ coarse, lo b < hi b :=
        fun b hb => hpos b (List.mem_cons_of_mem a hb)
      refine List.pairwise_cons.mpr ⟨?_, ih htail hfine⟩
      intro b hb
      have hapos := hpos a List.mem_cons_self
      have hbpos := htail b hb
      have hlast : Covers lo hi pieces (hi a - 1) :=
        (htile.covers_iff _).mpr ⟨by omega, by omega⟩
      have hfirst : Covers lo hi fine (lo b) :=
        (hrest.covers_iff _).mpr ⟨b, hb, Nat.le_refl _, hbpos⟩
      obtain ⟨p, hp, _, hplast⟩ := hlast
      obtain ⟨q, hq, hqfirst, _⟩ := hfirst
      have hpq := hcross p hp q hq
      omega

/-- A span that starts where another one ends is its neighbour, so a condition
on touching spans holds of neighbours only if it holds of all. -/
theorem forall_touching_of_isChain {R : A → A → Prop} {l : List A}
    (hord : Ordered lo hi l) (hpos : ∀ a ∈ l, lo a < hi a)
    (hchain : l.IsChain fun a b => hi a = lo b → R a b) :
    ∀ a ∈ l, ∀ b ∈ l, hi a = lo b → R a b := by
  induction l with
  | nil => simp
  | cons head tail ih =>
      obtain ⟨hhead, htail⟩ := List.pairwise_cons.mp hord
      have hheadpos := hpos head List.mem_cons_self
      have htailpos : ∀ a ∈ tail, lo a < hi a :=
        fun a ha => hpos a (List.mem_cons_of_mem head ha)
      intro a ha b hb htouch
      rcases List.mem_cons.mp ha with rfl | ha'
      · rcases List.mem_cons.mp hb with rfl | hb'
        · omega
        · cases tail with
          | nil => simp at hb'
          | cons next rest =>
              rcases List.mem_cons.mp hb' with rfl | hb''
              · exact (List.isChain_cons_cons.mp hchain).1 htouch
              · -- `next` stands between the two
                have hgap := (List.pairwise_cons.mp htail).1 b hb''
                have hfirst := hhead next List.mem_cons_self
                have hnext := htailpos next List.mem_cons_self
                omega
      · rcases List.mem_cons.mp hb with rfl | hb'
        · have hgap := hhead a ha'
          have hapos := htailpos a ha'
          omega
        · exact ih htail htailpos hchain.tail a ha' b hb' htouch

/-- An ordered list of nonempty spans splits at every address. -/
theorem ordered_split {l : List A} (hord : Ordered lo hi l)
    (hpos : ∀ a ∈ l, lo a < hi a) (x : Nat) :
    ∃ pre post, l = pre ++ post ∧ (∀ a ∈ pre, hi a ≤ x) ∧ ∀ a ∈ post, x < hi a := by
  induction l with
  | nil => exact ⟨[], [], rfl, by simp, by simp⟩
  | cons a l ih =>
      obtain ⟨hhead, htail⟩ := List.pairwise_cons.mp hord
      by_cases hle : hi a ≤ x
      · obtain ⟨pre, post, heq, hpre, hpost⟩ :=
          ih htail fun b hb => hpos b (List.mem_cons_of_mem a hb)
        refine ⟨a :: pre, post, by rw [heq, List.cons_append], ?_, hpost⟩
        intro b hb
        rcases List.mem_cons.mp hb with rfl | hb'
        · exact hle
        · exact hpre b hb'
      · refine ⟨[], a :: l, rfl, by simp, ?_⟩
        intro b hb
        rcases List.mem_cons.mp hb with rfl | hb'
        · exact Nat.lt_of_not_le hle
        · have hgap := hhead b hb'
          have hbpos := hpos b (List.mem_cons_of_mem a hb')
          omega

/-- The split point is what a binary search on the upper bounds finds. -/
theorem bisect_eq_length {pre post : List A} {x : Nat} (hpre : ∀ a ∈ pre, hi a ≤ x)
    (hpost : ∀ a ∈ post, x < hi a) :
    bisect (fun i => (pre ++ post)[i]?.any fun a => decide (hi a ≤ x))
      (pre ++ post).length 0 (pre ++ post).length = pre.length := by
  apply bisect_size_eq_boundary
  refine ⟨by simp, ?_, ?_⟩
  · intro i hlt
    simp only [List.getElem?_append_left hlt, List.getElem?_eq_getElem hlt]
    simpa using hpre _ (List.getElem_mem hlt)
  · intro i hge hlt
    have hidx : i - pre.length < post.length := by
      rw [List.length_append] at hlt
      omega
    simp only [List.getElem?_append_right hge, List.getElem?_eq_getElem hidx]
    simpa using hpost _ (List.getElem_mem hidx)

end SpanList

end WasixLibc
