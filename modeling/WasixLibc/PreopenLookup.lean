/-
Which registered prefix a path is looked up under.

The search compares the length of a prefix with how much of the path the best
match has taken so far, slashes included, so a match can hide a slightly longer
one that was registered before it.
-/
import WasixLibc.PreopenTable

namespace WasixLibc

namespace Preopens

/-- The path the prefixes are compared with. -/
def searchPath (path : Str) : Str := path.dropWhile (· == SLASH)

theorem searchPath_slash_not_head (path : Str) : (searchPath path).head? ≠ some SLASH := by
  intro hhead
  have hnot := List.head?_dropWhile_not (· == SLASH) path
  unfold searchPath at hhead
  rw [hhead] at hnot
  simp at hnot

/-- `pre` matches `path` and is the longest prefix that does, the last of
several. -/
structure IsLongest (path : Str) (older : List Preopen) (pre : Preopen) (newer : List Preopen) :
    Prop where
  whole : WholePrefix pre.pathPrefix (searchPath path)
  older_le : ∀ q ∈ older, WholePrefix q.pathPrefix (searchPath path) →
    q.pathPrefix.length ≤ pre.pathPrefix.length
  newer_lt : ∀ q ∈ newer, WholePrefix q.pathPrefix (searchPath path) →
    q.pathPrefix.length < pre.pathPrefix.length

/-- The lookup finds the longest match, and fails if there is none. -/
structure LongestLookup (preopens : List Preopen) (path : Str) : Prop where
  longest : ∀ older pre newer, preopens = older ++ pre :: newer →
    IsLongest path older pre newer → ∃ found, findAbspath preopens path = .ok found ∧
      found.fd = pre.fd ∧ found.absPrefix = pre.pathPrefix
  enoent : findAbspath preopens path = .error .enoent ↔
    ∀ pre ∈ preopens, ¬ WholePrefix pre.pathPrefix (searchPath path)

/-- A match that was registered later, and is not hidden itself, takes at least
`len` bytes of the path. -/
def hidden (path : Str) : List Preopen → Nat → Bool
  | [], _ => false
  | pre :: newer, len =>
      hidden path newer len ||
        (prefixMatches pre.pathPrefix (searchPath path) &&
          decide (len ≤ matchLength path (searchPath path) pre.pathPrefix.length) &&
          !hidden path newer pre.pathPrefix.length)

theorem length_le_matchLength (path searchPath : Str) (len : Nat) :
    len ≤ matchLength path searchPath len := by
  unfold matchLength skipSlashes
  split <;> omega

theorem search_cons (path : Str) (pre : Preopen) (newer : List Preopen) :
    search (pre :: newer) path = consider path (searchPath path) pre (search newer path) := rfl

/-- A match is taken unless it is hidden. -/
theorem search_cons_of_taken {path : Str} {pre : Preopen} {newer : List Preopen}
    (htaken : (search newer path).fd = -1 ∨
      (search newer path).matchLen < pre.pathPrefix.length)
    (hmatches : prefixMatches pre.pathPrefix (searchPath path) = true) :
    search (pre :: newer) path = ⟨pre.fd,
      matchLength path (searchPath path) pre.pathPrefix.length, pre.pathPrefix⟩ := by
  rw [search_cons]
  unfold consider
  rw [if_pos]
  rcases htaken with hfd | hlen
  · simp [hfd, hmatches]
  · simp [hlen, hmatches]

theorem search_cons_of_not_taken {path : Str} {pre : Preopen} {newer : List Preopen}
    (h : (search newer path).fd ≠ -1 ∧
        pre.pathPrefix.length ≤ (search newer path).matchLen ∨
      prefixMatches pre.pathPrefix (searchPath path) = false) :
    search (pre :: newer) path = search newer path := by
  rw [search_cons]
  unfold consider
  rw [if_neg]
  rcases h with ⟨hfd, hlen⟩ | hmatches
  · have hfirst : ((search newer path).fd == -1) = false := by simpa using hfd
    have hnot : ¬ (search newer path).matchLen < pre.pathPrefix.length := by omega
    simp only [hfirst, hnot, decide_false, Bool.or_self, Bool.false_and, Bool.false_eq_true,
      not_false_eq_true]
  · simp [hmatches]

/-- The step of the search that decides about a match. -/
theorem hidden_iff (path : Str) (preopens : List Preopen) (len : Nat) :
    hidden path preopens len = true ↔
      (search preopens path).fd ≠ -1 ∧ len ≤ (search preopens path).matchLen := by
  induction preopens generalizing len with
  | nil => simp [hidden, search]
  | cons pre newer ih =>
      have hlen := length_le_matchLength path (searchPath path) pre.pathPrefix.length
      have hself := ih pre.pathPrefix.length
      by_cases hmatches : prefixMatches pre.pathPrefix (searchPath path) = true
      · by_cases htaken : (search newer path).fd = -1 ∨
            (search newer path).matchLen < pre.pathPrefix.length
        · have hnot : hidden path newer pre.pathPrefix.length = false := by
            rw [Bool.eq_false_iff, ne_eq, hself]
            rintro ⟨hfd, hle⟩
            rcases htaken with hnone | hlt
            · exact hfd hnone
            · omega
          rw [search_cons_of_taken htaken hmatches]
          simp only [hidden, hmatches, hnot, Bool.true_and, Bool.not_false, Bool.and_true,
            Bool.or_eq_true, decide_eq_true_eq, ih len]
          constructor
          · rintro (⟨hfd, hle⟩ | hle)
            · -- hidden before, so hidden by the longer match too
              rcases htaken with hnone | hlt
              · exact absurd hnone hfd
              · exact ⟨pre.fd_ne, by omega⟩
            · exact ⟨pre.fd_ne, hle⟩
          · exact fun hle => Or.inr hle.2
        · have hkept : (search newer path).fd ≠ -1 ∧
              pre.pathPrefix.length ≤ (search newer path).matchLen := by
            rw [not_or, Nat.not_lt] at htaken
            exact htaken
          rw [search_cons_of_not_taken (Or.inl hkept)]
          simp only [hidden, hself.mpr hkept, Bool.not_true, Bool.and_false, Bool.or_false, ih len]
      · have hno : prefixMatches pre.pathPrefix (searchPath path) = false := by simpa using hmatches
        rw [search_cons_of_not_taken (Or.inr hno)]
        simp only [hidden, hno, Bool.false_and, Bool.or_false, ih len]

/-- The result of the search is the match it has taken last. -/
theorem search_cases (path : Str) (preopens : List Preopen) :
    (search preopens path).fd = -1 ∧
        (∀ pre ∈ preopens, prefixMatches pre.pathPrefix (searchPath path) = false) ∨
      ∃ pre ∈ preopens, prefixMatches pre.pathPrefix (searchPath path) = true ∧
        search preopens path = ⟨pre.fd,
          matchLength path (searchPath path) pre.pathPrefix.length, pre.pathPrefix⟩ := by
  induction preopens with
  | nil => exact Or.inl ⟨rfl, by simp⟩
  | cons pre newer ih =>
      by_cases hmatches : prefixMatches pre.pathPrefix (searchPath path) = true
      · by_cases htaken : (search newer path).fd = -1 ∨
            (search newer path).matchLen < pre.pathPrefix.length
        · exact Or.inr ⟨pre, by simp, hmatches, search_cons_of_taken htaken hmatches⟩
        · rw [not_or, Nat.not_lt] at htaken
          rw [search_cons_of_not_taken (Or.inl htaken)]
          rcases ih with ⟨hfd, _⟩ | ⟨best, hmem, hbest⟩
          · exact absurd hfd htaken.1
          · exact Or.inr ⟨best, List.mem_cons_of_mem _ hmem, hbest⟩
      · have hno : prefixMatches pre.pathPrefix (searchPath path) = false := by simpa using hmatches
        rw [search_cons_of_not_taken (Or.inr hno)]
        rcases ih with ⟨hfd, hnone⟩ | ⟨best, hmem, hbest⟩
        · refine Or.inl ⟨hfd, fun q hq => ?_⟩
          rcases List.mem_cons.mp hq with rfl | hq
          · exact hno
          · exact hnone q hq
        · exact Or.inr ⟨best, List.mem_cons_of_mem _ hmem, hbest⟩

/-- Matches that are not longer than what is taken change nothing. -/
theorem search_append_of_le {path : Str} {older newer : List Preopen}
    (hfd : (search newer path).fd ≠ -1)
    (hle : ∀ q ∈ older, prefixMatches q.pathPrefix (searchPath path) = true →
      q.pathPrefix.length ≤ (search newer path).matchLen) :
    search (older ++ newer) path = search newer path := by
  induction older with
  | nil => rfl
  | cons q older ih =>
      have hrest := ih fun r hr => hle r (List.mem_cons_of_mem _ hr)
      rw [List.cons_append]
      cases hmatches : prefixMatches q.pathPrefix (searchPath path) with
      | true =>
          rw [search_cons_of_not_taken, hrest]
          rw [hrest]
          exact Or.inl ⟨hfd, hle q (by simp) hmatches⟩
      | false => rw [search_cons_of_not_taken (Or.inr hmatches), hrest]

section Longest

variable {path : Str} {older newer : List Preopen} {pre : Preopen}

/-- The longest match is found if nothing hides it. -/
theorem search_longest (h : IsLongest path older pre newer)
    (hshown : hidden path newer pre.pathPrefix.length = false) :
    search (older ++ pre :: newer) path = ⟨pre.fd,
      matchLength path (searchPath path) pre.pathPrefix.length, pre.pathPrefix⟩ := by
  have hpath := searchPath_slash_not_head path
  have htaken : (search newer path).fd = -1 ∨
      (search newer path).matchLen < pre.pathPrefix.length := by
    by_contra hnot
    rw [not_or, Nat.not_lt] at hnot
    rw [(hidden_iff path newer _).mpr hnot] at hshown
    cases hshown
  have hfound := search_cons_of_taken htaken ((prefixMatches_iff hpath).mpr h.whole)
  rw [search_append_of_le, hfound]
  · rw [hfound]
    exact pre.fd_ne
  · intro q hq hmatches
    rw [hfound]
    exact (h.older_le q hq ((prefixMatches_iff hpath).mp hmatches)).trans
      (length_le_matchLength _ _ _)

/-- Otherwise a shorter one is. -/
theorem search_hidden (h : IsLongest path older pre newer)
    (hhidden : hidden path newer pre.pathPrefix.length = true) :
    (search (older ++ pre :: newer) path).absPrefix ≠ pre.pathPrefix := by
  have hpath := searchPath_slash_not_head path
  obtain ⟨hfd, hle⟩ := (hidden_iff path newer _).mp hhidden
  have hkept := search_cons_of_not_taken (Or.inl ⟨hfd, hle⟩)
  rw [search_append_of_le, hkept]
  · rcases search_cases path newer with ⟨hnone, _⟩ | ⟨best, hmem, hmatches, hbest⟩
    · exact absurd hnone hfd
    · have hlt := h.newer_lt best hmem ((prefixMatches_iff hpath).mp hmatches)
      rw [hbest]
      intro heq
      have hlength : best.pathPrefix.length = pre.pathPrefix.length := congrArg List.length heq
      omega
  · rw [hkept]
    exact hfd
  · intro q hq hmatches
    rw [hkept]
    exact (h.older_le q hq ((prefixMatches_iff hpath).mp hmatches)).trans hle

end Longest

theorem findAbspath_eq_enoent_iff (preopens : List Preopen) (path : Str) :
    findAbspath preopens path = .error .enoent ↔
      ∀ pre ∈ preopens, ¬ WholePrefix pre.pathPrefix (searchPath path) := by
  have hpath := searchPath_slash_not_head path
  unfold findAbspath
  rcases search_cases path preopens with ⟨hfd, hnone⟩ | ⟨best, hmem, hmatches, hbest⟩
  · simp only [hfd, ↓reduceIte, true_iff]
    intro pre hpre hwhole
    rw [← prefixMatches_iff hpath, hnone pre hpre] at hwhole
    cases hwhole
  · simp only [hbest, best.fd_ne, ↓reduceIte, reduceCtorEq, false_iff]
    exact fun hnone => hnone best hmem ((prefixMatches_iff hpath).mp hmatches)

theorem findAbspath_eq_ok {preopens : List Preopen} {path : Str} {found : Found}
    (h : findAbspath preopens path = .ok found) :
    found.fd = (search preopens path).fd ∧ found.absPrefix = (search preopens path).absPrefix := by
  unfold findAbspath at h
  dsimp only at h
  split at h
  · cases h
  · obtain rfl := Except.ok.inj h
    exact ⟨rfl, rfl⟩

theorem findAbspath_of_search {preopens : List Preopen} {path : Str} {best : Best}
    (hbest : search preopens path = best) (hfd : best.fd ≠ -1) :
    ∃ found, findAbspath preopens path = .ok found ∧ found.fd = best.fd ∧
      found.absPrefix = best.absPrefix := by
  subst hbest
  unfold findAbspath
  simp only [hfd, ↓reduceIte]
  exact ⟨_, rfl, rfl, rfl⟩

/-- The lookup is right exactly for the tables in which the longest match is
not hidden. -/
theorem findAbspath_longest_iff (preopens : List Preopen) (path : Str) :
    LongestLookup preopens path ↔
      ∀ older pre newer, preopens = older ++ pre :: newer →
        IsLongest path older pre newer → hidden path newer pre.pathPrefix.length = false := by
  constructor
  · rintro hlookup older pre newer rfl hlongest
    by_contra hhidden
    obtain ⟨found, hfound, _, hprefix⟩ := hlookup.longest older pre newer rfl hlongest
    have hother := search_hidden hlongest (by simpa using hhidden)
    exact hother ((findAbspath_eq_ok hfound).2.symm.trans hprefix)
  · intro hshown
    refine ⟨?_, findAbspath_eq_enoent_iff preopens path⟩
    rintro older pre newer rfl hlongest
    exact findAbspath_of_search (search_longest hlongest (hshown older pre newer rfl hlongest))
      pre.fd_ne

namespace LookupWitness

/-- `b/c` and then `b`. -/
def preopens : List Preopen :=
  [.register 4 [98, SLASH, 99] (by decide) (by decide), .register 5 [98] (by decide) (by decide)]

/-- `/b/c`: the match of `b` has taken three bytes, as many as `b/c` has. -/
def path : Str := [SLASH, 98, SLASH, 99]

theorem longest_is_hidden : ¬ ∀ (preopens : List Preopen) (path : Str),
    path.head? = some SLASH → LongestLookup preopens path := by
  intro h
  have hlongest : IsLongest path [] (.register 4 [98, SLASH, 99] (by decide) (by decide))
      [.register 5 [98] (by decide) (by decide)] := by
    refine ⟨⟨[], rfl, ?_⟩, by simp, ?_⟩
    · exact Or.inr (Or.inr (Or.inl rfl))
    · intro q hq _
      obtain rfl := List.mem_singleton.mp hq
      decide
  obtain ⟨found, hfound, hfd, _⟩ := (h preopens path rfl).longest _ _ _ rfl hlongest
  have hresult : findAbspath preopens path = .ok ⟨5, [98], [99]⟩ := by decide +kernel
  rw [hresult] at hfound
  obtain rfl := Except.ok.inj hfound
  revert hfd
  decide

end LookupWitness

end Preopens

end WasixLibc
