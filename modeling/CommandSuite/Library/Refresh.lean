import Mathlib.Data.List.Basic

/-! # Caches that are refreshed after announcements

A source changes over time. An announcement of a change arms a timer, and the timer starts a fetch unless its fetch is
still in flight. A fetch asks for parts, each answered with the source as it then is, and what it brings replaces what
is held. A cache that drops no refresh for a fetch that is behind settles on a state the source was in since the
announcement.
-/

namespace CommandSuite.Library.Refresh

universe u v

/-- The moments at which the parts of a fetch were answered. -/
abbrev Fetch := List (Option Nat)

structure Cache (α : Type u) where
  timer : Bool
  inflight : Option Fetch
  others : List Fetch
  held : α
  /-- The latest moment that an announcement told of. -/
  announced : Option Nat

inductive Slot where
  | own
  | other (place : Nat)
  deriving DecidableEq

namespace Cache

variable {α : Type u} {σ : Type v}

def idle (held : α) : Cache α := ⟨false, none, [], held, none⟩

def fetches (cache : Cache α) : List Fetch := cache.inflight.toList ++ cache.others

def fetchAt (cache : Cache α) : Slot → Option Fetch
  | .own => cache.inflight
  | .other place => cache.others[place]?

def remove (cache : Cache α) : Slot → Cache α
  | .own => { cache with inflight := none }
  | .other place => { cache with others := cache.others.eraseIdx place }

def announce (moment : Nat) (cache : Cache α) : Cache α :=
  { cache with timer := true, announced := some (max (cache.announced.getD 0) moment) }

def fire (width : Nat) (cache : Cache α) : Cache α :=
  if cache.timer then { cache with timer := false, inflight := some (cache.inflight.getD (List.replicate width none)) } else cache

def start (width : Nat) (cache : Cache α) : Cache α := { cache with others := cache.others ++ [List.replicate width none] }

def answerPart (moment part : Nat) (fetch : Fetch) : Fetch := fetch.modify part fun answer => some (answer.getD moment)

def answer (moment part : Nat) (cache : Cache α) : Slot → Cache α
  | .own => { cache with inflight := cache.inflight.map (answerPart moment part) }
  | .other place => { cache with others := cache.others.modify place (answerPart moment part) }

def fetched (history : List σ) (fetch : Fetch) : Option (List σ) := fetch.mapM fun answer => answer.bind fun moment => history[moment]?

def complete (assemble : List σ → α) (history : List σ) (cache : Cache α) (slot : Slot) : Cache α :=
  match (cache.fetchAt slot).bind (fetched history) with
  | none => cache
  | some states => { cache.remove slot with held := assemble states }

end Cache

/-! ## What a cache holds -/

section Settling

variable {α : Type u} {σ : Type v} {history : List σ}

/-- The source was in that state at some moment since. -/
def Stood (history : List σ) (since : Nat) (state : σ) : Prop := ∃ moment, since ≤ moment ∧ history[moment]? = some state

def Current (truth : σ → α) (history : List σ) (since : Nat) (held : α) : Prop := ∃ state, Stood history since state ∧ held = truth state

/-- No part was answered with a state that was gone before. -/
def Promising (history : List σ) (since : Nat) (fetch : Fetch) : Prop :=
  ∀ moment, some moment ∈ fetch → ∃ state, history[moment]? = some state ∧ Stood history since state

/-- Its parts were answered with one state. -/
def Whole (history : List σ) (since : Nat) (fetch : Fetch) : Prop :=
  ∃ state, Stood history since state ∧ ∀ moment, some moment ∈ fetch → history[moment]? = some state

def Awaited (history : List σ) (since : Nat) (cache : Cache α) : Prop := ∃ fetch ∈ cache.fetches, Promising history since fetch

/-- What is held is current, or something is still to come. -/
def Covered (truth : σ → α) (history : List σ) (cache : Cache α) : Prop :=
  ∀ since, cache.announced = some since → Current truth history since cache.held ∨ cache.timer = true ∨ Awaited history since cache

/-- A refresh is dropped for a fetch in flight only when nothing was missed by then, or a fetch is not behind. -/
def FiresSafely (truth : σ → α) (history : List σ) (cache : Cache α) : Prop :=
  cache.timer = true → cache.inflight.isSome = true → ∀ since, cache.announced = some since →
    Current truth history since cache.held ∨ Awaited history since cache

/-- A fetch that is behind, or whose parts differ, is held only while something else is to come. -/
def CompletesSafely (history : List σ) (cache : Cache α) (slot : Slot) : Prop :=
  ∀ fetch states, cache.fetchAt slot = some fetch → Cache.fetched history fetch = some states → ∀ since,
    cache.announced = some since → Whole history since fetch ∨ cache.timer = true ∨ Awaited history since (cache.remove slot)

structure Sound (width : Nat) (history : List σ) (cache : Cache α) : Prop where
  announced : ∀ since, cache.announced = some since → since < history.length
  width : ∀ fetch ∈ cache.fetches, fetch.length = width

variable {since : Nat}

theorem Stood.mono {state : σ} (h : Stood history since state) (later : List σ) : Stood (history ++ later) since state := by
  obtain ⟨moment, hSince, hMoment⟩ := h
  obtain ⟨hLess, _⟩ := List.getElem?_eq_some_iff.mp hMoment
  exact ⟨moment, hSince, by rw [List.getElem?_append_left hLess, hMoment]⟩

theorem stood_last (h : history ≠ []) (hSince : since < history.length) :
    ∃ state, history[history.length - 1]? = some state ∧ Stood history since state := by
  have hLess : history.length - 1 < history.length := Nat.sub_lt (List.length_pos_iff.mpr h) Nat.one_pos
  have hLast := List.getElem?_eq_getElem hLess
  exact ⟨_, hLast, history.length - 1, Nat.le_sub_one_of_lt hSince, hLast⟩

theorem Current.mono {truth : σ → α} {held : α} (h : Current truth history since held) (later : List σ) :
    Current truth (history ++ later) since held := by
  obtain ⟨state, hStood, hHeld⟩ := h
  exact ⟨state, hStood.mono later, hHeld⟩

variable {fetch : Fetch}

theorem Promising.mono (h : Promising history since fetch) (later : List σ) : Promising (history ++ later) since fetch := by
  intro moment hMoment
  obtain ⟨state, hState, hStood⟩ := h moment hMoment
  obtain ⟨hLess, _⟩ := List.getElem?_eq_some_iff.mp hState
  exact ⟨state, by rw [List.getElem?_append_left hLess, hState], hStood.mono later⟩

theorem Covered.mono {truth : σ → α} {cache : Cache α} (h : Covered truth history cache) (later : List σ) :
    Covered truth (history ++ later) cache := by
  intro since hSince
  rcases h since hSince with hCurrent | hTimer | ⟨fetch, hFetch, hPromising⟩
  · exact .inl (hCurrent.mono later)
  · exact .inr (.inl hTimer)
  · exact .inr (.inr ⟨fetch, hFetch, hPromising.mono later⟩)

variable {width : Nat}

theorem Sound.mono {cache : Cache α} (h : Sound width history cache) (later : List σ) : Sound width (history ++ later) cache :=
  ⟨fun since hSince => by rw [List.length_append]; exact Nat.lt_add_right _ (h.announced since hSince), h.width⟩

theorem promising_asked (history : List σ) (since width : Nat) : Promising history since (List.replicate width none) :=
  fun _ hMoment => nomatch List.eq_of_mem_replicate hMoment

/-! ## The operations -/

variable {truth : σ → α} {cache : Cache α}

theorem covered_announce (history : List σ) (moment : Nat) : Covered truth history (cache.announce moment) := fun _ _ => .inr (.inl rfl)

theorem covered_fire (h : Covered truth history cache) (hSafely : FiresSafely truth history cache) :
    Covered truth history (cache.fire width) := by
  unfold Cache.fire
  split
  · rename_i hTimer
    intro since hSince
    cases hFlight : cache.inflight with
    | none => exact .inr (.inr ⟨_, List.mem_append_left _ (List.mem_singleton_self _), promising_asked history since width⟩)
    | some fetch =>
      rcases hSafely hTimer (by rw [hFlight]; rfl) since hSince with hCurrent | ⟨other, hOther, hPromising⟩
      · exact .inl hCurrent
      · refine .inr (.inr ⟨other, ?_, hPromising⟩)
        unfold Cache.fetches at hOther
        rwa [hFlight] at hOther
  · exact h

theorem covered_start (history : List σ) (width : Nat) : Covered truth history (cache.start width) := fun since _ =>
  .inr (.inr ⟨_, List.mem_append_right _ (List.mem_append_right _ (List.mem_singleton_self _)), promising_asked history since width⟩)

theorem promising_answerPart (h : Promising history since fetch) (hSome : history ≠ [])
    (hSince : since < history.length) (part : Nat) : Promising history since (Cache.answerPart (history.length - 1) part fetch) := by
  intro moment hMoment
  obtain ⟨place, hPlace⟩ := List.mem_iff_getElem?.mp hMoment
  rw [Cache.answerPart, List.getElem?_modify] at hPlace
  obtain ⟨answer, hAnswer, hSame⟩ := Option.map_eq_some_iff.mp hPlace
  split at hSame
  · cases answer with
    | none =>
      obtain rfl := Option.some.inj hSame
      exact stood_last hSome hSince
    | some earlier =>
      obtain rfl := Option.some.inj hSame
      exact h earlier (List.mem_of_getElem? hAnswer)
  · exact h moment (List.mem_of_getElem? (hSame ▸ hAnswer))

theorem mem_fetches_answer {moment part : Nat} {slot : Slot} (h : fetch ∈ cache.fetches) :
    fetch ∈ (cache.answer moment part slot).fetches ∨ Cache.answerPart moment part fetch ∈ (cache.answer moment part slot).fetches := by
  rcases List.mem_append.mp h with hOwn | hOther
  · cases slot with
    | own =>
      right
      refine List.mem_append_left _ ?_
      rw [Option.mem_toList] at hOwn
      exact Option.mem_toList.mpr (Option.mem_map_of_mem _ hOwn)
    | other place => exact .inl (List.mem_append_left _ hOwn)
  · cases slot with
    | own => exact .inl (List.mem_append_right _ hOther)
    | other place =>
      obtain ⟨other, hPlace⟩ := List.mem_iff_getElem?.mp hOther
      have hModified : (cache.others.modify place (Cache.answerPart moment part))[other]? =
          some (if place = other then Cache.answerPart moment part fetch else fetch) := by
        rw [List.getElem?_modify, hPlace]
        split <;> rfl
      split at hModified
      · exact .inr (List.mem_append_right _ (List.mem_of_getElem? hModified))
      · exact .inl (List.mem_append_right _ (List.mem_of_getElem? hModified))

theorem covered_answer (hSound : Sound width history cache) (h : Covered truth history cache) (hSome : history ≠ [])
    (part : Nat) (slot : Slot) : Covered truth history (cache.answer (history.length - 1) part slot) := by
  have hHeld : (cache.answer (history.length - 1) part slot).held = cache.held := by cases slot <;> rfl
  have hTimer : (cache.answer (history.length - 1) part slot).timer = cache.timer := by cases slot <;> rfl
  have hAnnounced : (cache.answer (history.length - 1) part slot).announced = cache.announced := by cases slot <;> rfl
  intro since hSince
  rw [hAnnounced] at hSince
  rw [hHeld, hTimer]
  rcases h since hSince with hCurrent | hArmed | ⟨fetch, hFetch, hPromising⟩
  · exact .inl hCurrent
  · exact .inr (.inl hArmed)
  · right; right
    rcases mem_fetches_answer hFetch with hSame | hAnswered
    · exact ⟨fetch, hSame, hPromising⟩
    · exact ⟨_, hAnswered, promising_answerPart hPromising hSome (hSound.announced since hSince) part⟩

theorem fetched_cons {answer : Option Nat} {states : List σ} (h : Cache.fetched history (answer :: fetch) = some states) :
    ∃ moment state rest, answer = some moment ∧ history[moment]? = some state ∧ Cache.fetched history fetch = some rest ∧
      states = state :: rest := by
  unfold Cache.fetched at h ⊢
  rw [List.mapM_cons] at h
  obtain ⟨state, hState, hTail⟩ := Option.bind_eq_some_iff.mp h
  obtain ⟨rest, hRest, hStates⟩ := Option.bind_eq_some_iff.mp hTail
  obtain ⟨moment, hAnswer, hMoment⟩ := Option.bind_eq_some_iff.mp hState
  exact ⟨moment, state, rest, hAnswer, hMoment, hRest, (Option.some.inj hStates).symm⟩

theorem fetched_of_whole (h : Whole history since fetch) {states : List σ}
    (hStates : Cache.fetched history fetch = some states) : ∃ state, Stood history since state ∧ states = List.replicate fetch.length state := by
  obtain ⟨state, hStood, hEach⟩ := h
  refine ⟨state, hStood, ?_⟩
  clear hStood
  induction fetch generalizing states with
  | nil =>
    obtain rfl := Option.some.inj hStates
    rfl
  | cons answer fetch ih =>
    obtain ⟨moment, first, rest, rfl, hMoment, hRest, rfl⟩ := fetched_cons hStates
    have hFirst := hEach moment List.mem_cons_self
    rw [ih hRest fun other hOther => hEach other (List.mem_cons_of_mem _ hOther), Option.some.inj (hMoment.symm.trans hFirst)]
    rfl

theorem covered_complete {assemble : List σ → α} (hAssemble : ∀ state, assemble (List.replicate width state) = truth state)
    (hSound : Sound width history cache) (h : Covered truth history cache) (slot : Slot)
    (hSafely : CompletesSafely history cache slot) :
    Covered truth history (cache.complete assemble history slot) := by
  have hMem : ∀ fetch, cache.fetchAt slot = some fetch → fetch ∈ cache.fetches := by
    intro fetch hFetch
    cases slot with
    | own => exact List.mem_append_left _ (Option.mem_toList.mpr hFetch)
    | other place => exact List.mem_append_right _ (List.mem_of_getElem? hFetch)
  have hTimer : (cache.remove slot).timer = cache.timer := by cases slot <;> rfl
  have hAnnounced : (cache.remove slot).announced = cache.announced := by cases slot <;> rfl
  unfold Cache.complete
  split
  · exact h
  · rename_i states hStates
    obtain ⟨fetch, hFetch, hFetched⟩ := Option.bind_eq_some_iff.mp hStates
    intro since hSince
    change (cache.remove slot).announced = some since at hSince
    rw [hAnnounced] at hSince
    rcases hSafely fetch states hFetch hFetched since hSince with hWhole | hArmed | hAwaited
    · obtain ⟨state, hStood, rfl⟩ := fetched_of_whole hWhole hFetched
      refine .inl ⟨state, hStood, ?_⟩
      rw [← hAssemble state, hSound.width fetch (hMem fetch hFetch)]
    · exact .inr (.inl (hTimer.trans hArmed))
    · exact .inr (.inr hAwaited)

theorem current_of_covered (h : Covered truth history cache) (hTimer : cache.timer = false) (hFetches : cache.fetches = [])
    (hSince : cache.announced = some since) : Current truth history since cache.held := by
  rcases h since hSince with hCurrent | hArmed | ⟨fetch, hFetch, _⟩
  · exact hCurrent
  · rw [hTimer] at hArmed
    cases hArmed
  · rw [hFetches] at hFetch
    cases hFetch

/-! ## Soundness -/

variable {width : Nat}

theorem sound_idle (width : Nat) (history : List σ) (held : α) : Sound width history (Cache.idle held) :=
  ⟨fun _ hNone => (nomatch hNone), fun _ hNone => nomatch hNone⟩

theorem sound_announce (h : Sound width history cache) {moment : Nat} (hMoment : moment < history.length) :
    Sound width history (cache.announce moment) := by
  refine ⟨fun since hSince => ?_, h.width⟩
  obtain rfl := Option.some.inj hSince
  cases hEarlier : cache.announced with
  | none => exact Nat.max_lt.mpr ⟨Nat.zero_lt_of_lt hMoment, hMoment⟩
  | some earlier => exact Nat.max_lt.mpr ⟨h.announced earlier hEarlier, hMoment⟩

theorem sound_fire (h : Sound width history cache) : Sound width history (cache.fire width) := by
  unfold Cache.fire
  split
  · refine ⟨h.announced, fun fetch hFetch => ?_⟩
    rcases List.mem_append.mp hFetch with hOwn | hOther
    · obtain rfl := Option.some.inj (Option.mem_toList.mp hOwn)
      cases hFlight : cache.inflight with
      | none => exact List.length_replicate
      | some fetch => exact h.width fetch (List.mem_append_left _ (Option.mem_toList.mpr hFlight))
    · exact h.width fetch (List.mem_append_right _ hOther)
  · exact h

theorem sound_start (h : Sound width history cache) : Sound width history (cache.start width) := by
  refine ⟨h.announced, fun fetch hFetch => ?_⟩
  rcases List.mem_append.mp hFetch with hOwn | hOther
  · exact h.width fetch (List.mem_append_left _ hOwn)
  · rcases List.mem_append.mp hOther with hEarlier | hLast
    · exact h.width fetch (List.mem_append_right _ hEarlier)
    · rw [List.mem_singleton.mp hLast]
      exact List.length_replicate

theorem length_answerPart (moment part : Nat) (fetch : Fetch) : (Cache.answerPart moment part fetch).length = fetch.length :=
  List.length_modify _ _ _

theorem sound_answer (h : Sound width history cache) (moment part : Nat) (slot : Slot) :
    Sound width history (cache.answer moment part slot) := by
  cases slot with
  | own =>
    refine ⟨h.announced, fun fetch hFetch => ?_⟩
    rcases List.mem_append.mp hFetch with hOwn | hOther
    · obtain ⟨earlier, hEarlier, rfl⟩ := Option.map_eq_some_iff.mp (Option.mem_toList.mp hOwn)
      rw [length_answerPart]
      exact h.width earlier (List.mem_append_left _ (Option.mem_toList.mpr hEarlier))
    · exact h.width fetch (List.mem_append_right _ hOther)
  | other place =>
    refine ⟨h.announced, fun fetch hFetch => ?_⟩
    rcases List.mem_append.mp hFetch with hOwn | hOther
    · exact h.width fetch (List.mem_append_left _ hOwn)
    · obtain ⟨index, hIndex⟩ := List.mem_iff_getElem?.mp hOther
      change (cache.others.modify place _)[index]? = some fetch at hIndex
      rw [List.getElem?_modify] at hIndex
      obtain ⟨earlier, hEarlier, rfl⟩ := Option.map_eq_some_iff.mp hIndex
      have hWidth := h.width earlier (List.mem_append_right _ (List.mem_of_getElem? hEarlier))
      split
      · rw [length_answerPart]
        exact hWidth
      · exact hWidth

theorem sound_remove (h : Sound width history cache) (slot : Slot) : Sound width history (cache.remove slot) := by
  cases slot with
  | own => exact ⟨h.announced, fun fetch hFetch => h.width fetch (List.mem_append_right _ hFetch)⟩
  | other place =>
    refine ⟨h.announced, fun fetch hFetch => h.width fetch ?_⟩
    rcases List.mem_append.mp hFetch with hOwn | hOther
    · exact List.mem_append_left _ hOwn
    · exact List.mem_append_right _ (List.mem_of_mem_eraseIdx hOther)

theorem sound_complete (h : Sound width history cache) (assemble : List σ → α) (slot : Slot) :
    Sound width history (cache.complete assemble history slot) := by
  unfold Cache.complete
  split
  · exact h
  · have hRemoved := sound_remove h slot
    exact ⟨hRemoved.announced, hRemoved.width⟩

end Settling

end CommandSuite.Library.Refresh
