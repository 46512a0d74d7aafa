import Rebar.Lib.Calls

/-!
# Links with a reverse index, removed when their owner dies

A forward map holds links, each of them has an owner, and a reverse index lists the links of every
owner, so that the cleanup of a dead owner finds them.  Calls update the map and the index in
separate operations.

* `Links σ κ ι`     where links of type `ι` stand in a state and in a call;
* `Links.Covered`   the invariant: a link is listed, or some call in progress makes up for it;
* `Keeps.covered`, `Covered.death`, `Covered.invoke`   the steps keep the invariant.
-/

namespace Rebar

structure Links (σ κ ι : Type) where
  /-- the forward map holds the link -/
  points : σ → ι → Prop
  /-- its owner is alive -/
  alive : σ → ι → Prop
  /-- the reverse index lists it -/
  listed : σ → ι → Prop
  /-- the call will list it -/
  lists : κ → ι → Prop
  /-- the call made it and will remove it if the owner turns out to be dead -/
  owns : κ → ι → Prop
  /-- the call will take the list of the dead owner -/
  takes : κ → ι → Prop
  /-- the call has it among the links it will remove -/
  carries : κ → ι → Prop
  owns_of_lists : ∀ {c x}, lists c x → owns c x

namespace Links
variable {σ κ ι : Type} {L : Links σ κ ι} {s : Calls σ κ} {i : Nat} {call : κ} {t : σ}
  {new : Option κ} {x : ι}

/-- a call will remove the link, once it sees that the owner is dead -/
def Doomed (L : Links σ κ ι) (s : Calls σ κ) (x : ι) : Prop :=
  (∃ c ∈ s.calls, L.owns c x) ∨ (L.listed s.shared x ∧ ∃ c ∈ s.calls, L.takes c x) ∨
    ∃ c ∈ s.calls, L.carries c x

structure Covered (L : Links σ κ ι) (s : Calls σ κ) : Prop where
  alive : ∀ {x}, L.points s.shared x → L.alive s.shared x →
    L.listed s.shared x ∨ ∃ c ∈ s.calls, L.lists c x
  dead : ∀ {x}, L.points s.shared x → ¬ L.alive s.shared x → L.Doomed s x

/-- the reverse index can do without the link: a call in progress will list it, or look at it -/
def Spared (L : Links σ κ ι) (s : Calls σ κ) (x : ι) : Prop :=
  (L.alive s.shared x → ∃ c ∈ s.calls, L.lists c x) ∧
  (¬ L.alive s.shared x → ∃ c ∈ s.calls, L.owns c x)

/-- what an operation by which nobody dies must do with the links -/
structure Keeps (L : Links σ κ ι) (s : Calls σ κ) (call : κ) (t : σ) (new : Option κ) : Prop where
  alive : ∀ {x}, L.alive t x ↔ L.alive s.shared x
  points : ∀ {x}, L.points t x → L.points s.shared x ∨ ∃ c, new = some c ∧ L.lists c x
  listed : ∀ {x}, L.points t x → L.listed s.shared x →
    L.listed t x ∨ L.Spared s x ∨ ¬ L.alive s.shared x ∧ ∃ c, new = some c ∧ L.carries c x
  lists : ∀ {x}, L.lists call x → L.listed t x ∨ ∃ c, new = some c ∧ L.lists c x
  owns : ∀ {x}, L.points t x → ¬ L.alive s.shared x → L.owns call x →
    ∃ c, new = some c ∧ L.owns c x
  takes : ∀ {x}, L.listed t x → L.takes call x → ∃ c, new = some c ∧ L.takes c x
  carries : ∀ {x}, L.points t x → L.carries call x → ∃ c, new = some c ∧ L.carries c x

/-- an operation of a call that has nothing to do with any link, before and after it -/
theorem Keeps.of_idle (halive : ∀ {x}, L.alive t x ↔ L.alive s.shared x)
    (hpoints : ∀ {x}, L.points t x → L.points s.shared x)
    (hlisted : ∀ {x}, L.points t x → L.listed s.shared x → L.listed t x ∨ L.Spared s x)
    (howns : ∀ {x}, ¬ L.owns call x) (htakes : ∀ {x}, ¬ L.takes call x)
    (hcarries : ∀ {x}, ¬ L.carries call x) : L.Keeps s call t new where
  alive := halive
  points := fun hx => Or.inl (hpoints hx)
  listed := fun hx hl => (hlisted hx hl).imp_right Or.inl
  lists := fun hc => absurd (L.owns_of_lists hc) howns
  owns := fun _ _ hc => absurd hc howns
  takes := fun _ hc => absurd hc htakes
  carries := fun _ hc => absurd hc hcarries

/-- an operation of a call that looks after the links it made and no others -/
theorem Keeps.of_owner (halive : ∀ {x}, L.alive t x ↔ L.alive s.shared x)
    (hpoints : ∀ {x}, L.points t x → L.points s.shared x)
    (hlisted : ∀ {x}, L.listed s.shared x → L.listed t x) (hlists : ∀ {x}, ¬ L.lists call x)
    (htakes : ∀ {x}, ¬ L.takes call x) (hcarries : ∀ {x}, ¬ L.carries call x)
    (howns : ∀ {x}, L.points t x → ¬ L.alive s.shared x → L.owns call x →
      ∃ c, new = some c ∧ L.owns c x) : L.Keeps s call t new :=
  ⟨halive, fun hx => Or.inl (hpoints hx), fun _ hin => Or.inl (hlisted hin),
    fun hc => absurd hc hlists, howns, fun _ hc => absurd hc htakes, fun _ hc => absurd hc hcarries⟩

theorem Keeps.covered_alive (hk : L.Keeps s call t new) (h : L.Covered s)
    (hi : s.calls[i]? = some call) (hx : L.points t x) (ha : L.alive t x) :
    L.listed t x ∨ ∃ c ∈ Calls.advanced s.calls i new, L.lists c x := by
  have hold : L.alive s.shared x := hk.alive.mp ha
  have hlists : (∃ c ∈ s.calls, L.lists c x) →
      L.listed t x ∨ ∃ c ∈ Calls.advanced s.calls i new, L.lists c x := by
    intro hex
    by_cases hin : L.listed t x
    · exact Or.inl hin
    · exact Or.inr (Calls.exists_advance hi hex fun hc => (hk.lists hc).resolve_left hin)
  rcases hk.points hx with hx' | ⟨c, hnew, hc⟩
  · rcases h.alive hx' hold with hin | hex
    · rcases hk.listed hx hin with hin | hspared | ⟨hdead, -⟩
      · exact Or.inl hin
      · exact hlists (hspared.1 hold)
      · exact absurd hold hdead
    · exact hlists hex
  · exact Or.inr ⟨c, hnew ▸ Calls.mem_advanced_new, hc⟩

theorem Keeps.covered_dead (hk : L.Keeps s call t new) (h : L.Covered s)
    (hi : s.calls[i]? = some call) (hx : L.points t x) (ha : ¬ L.alive t x) :
    L.Doomed ⟨t, Calls.advanced s.calls i new⟩ x := by
  have hold : ¬ L.alive s.shared x := fun hs => ha (hk.alive.mpr hs)
  have howns : (∃ c ∈ s.calls, L.owns c x) → ∃ c ∈ Calls.advanced s.calls i new, L.owns c x :=
    fun hex => Calls.exists_advance hi hex fun hc => hk.owns hx hold hc
  rcases hk.points hx with hx' | ⟨c, hnew, hc⟩
  · rcases h.dead hx' hold with hex | ⟨hin, hex⟩ | hex
    · exact Or.inl (howns hex)
    · rcases hk.listed hx hin with hin | hspared | ⟨-, c, hnew, hc⟩
      · exact Or.inr (Or.inl ⟨hin, Calls.exists_advance hi hex fun hc => hk.takes hin hc⟩)
      · exact Or.inl (howns (hspared.2 hold))
      · exact Or.inr (Or.inr ⟨c, hnew ▸ Calls.mem_advanced_new, hc⟩)
    · exact Or.inr (Or.inr (Calls.exists_advance hi hex fun hc => hk.carries hx hc))
  · exact Or.inl ⟨c, hnew ▸ Calls.mem_advanced_new, L.owns_of_lists hc⟩

/-- **An operation by which nobody dies keeps the invariant.** -/
theorem Keeps.covered (hk : L.Keeps s call t new) (h : L.Covered s)
    (hi : s.calls[i]? = some call) : L.Covered ⟨t, Calls.advanced s.calls i new⟩ :=
  ⟨hk.covered_alive h hi, hk.covered_dead h hi⟩

/-- **A death keeps the invariant**: the links of the dead are left to the list that the call takes
next. -/
theorem Covered.death (h : L.Covered s) (hi : s.calls[i]? = some call) {c : κ}
    (hpoints : ∀ {x}, L.points t x → L.points s.shared x)
    (hlisted : ∀ {x}, L.listed s.shared x → L.listed t x)
    (halive : ∀ {x}, L.alive t x → L.alive s.shared x)
    (htakes : ∀ {x}, L.alive s.shared x → ¬ L.alive t x → L.takes c x)
    (hidle : ∀ {x}, ¬ L.owns call x ∧ ¬ L.takes call x ∧ ¬ L.carries call x) :
    L.Covered ⟨t, Calls.advanced s.calls i (some c)⟩ := by
  have hstay : ∀ {R : κ → Prop}, ¬ R call → (∃ c ∈ s.calls, R c) →
      ∃ c' ∈ Calls.advanced s.calls i (some c), R c' :=
    fun hr hex => Calls.exists_advance hi hex fun hc => absurd hc hr
  refine ⟨fun hx ha => ?_, fun {x} hx ha => ?_⟩
  · exact (h.alive (hpoints hx) (halive ha)).imp hlisted
      (hstay fun hc => hidle.1 (L.owns_of_lists hc))
  · by_cases hold : L.alive s.shared x
    · rcases h.alive (hpoints hx) hold with hin | ⟨c', hc, hl⟩
      · exact Or.inr (Or.inl ⟨hlisted hin, c, Calls.mem_advanced_new, htakes hold ha⟩)
      · exact Or.inl (hstay hidle.1 ⟨c', hc, L.owns_of_lists hl⟩)
    · rcases h.dead (hpoints hx) hold with hex | ⟨hin, hex⟩ | hex
      · exact Or.inl (hstay hidle.1 hex)
      · exact Or.inr (Or.inl ⟨hlisted hin, hstay hidle.2.1 hex⟩)
      · exact Or.inr (Or.inr (hstay hidle.2.2 hex))

theorem Covered.invoke (h : L.Covered s) (call : κ) : L.Covered ⟨s.shared, s.calls ++ [call]⟩ := by
  have hstay : ∀ {R : κ → Prop}, (∃ c ∈ s.calls, R c) → ∃ c ∈ s.calls ++ [call], R c :=
    fun ⟨c, hc, hr⟩ => ⟨c, List.mem_append_left _ hc, hr⟩
  refine ⟨fun hx ha => (h.alive hx ha).imp_right hstay, fun hx ha => ?_⟩
  exact (h.dead hx ha).imp hstay (Or.imp (And.imp_right hstay) hstay)

theorem Covered.of_empty (hempty : ∀ {x}, ¬ L.points s.shared x) : L.Covered s :=
  ⟨fun hx => absurd hx hempty, fun hx => absurd hx hempty⟩

/-- **Without calls in progress every link has a live owner.** -/
theorem Covered.alive_of_quiet (h : L.Covered s) (hquiet : s.calls = [])
    (hx : L.points s.shared x) : L.alive s.shared x := by
  refine Classical.byContradiction fun ha => ?_
  have hnone : ∀ {R : κ → Prop}, ¬ ∃ c ∈ s.calls, R c := by
    rintro R ⟨c, hc, -⟩
    rw [hquiet] at hc
    exact absurd hc List.not_mem_nil
  rcases h.dead hx ha with hex | ⟨-, hex⟩ | hex <;> exact hnone hex

end Links
end Rebar
