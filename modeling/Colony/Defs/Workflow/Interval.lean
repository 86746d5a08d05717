import Colony.Defs.Data.Dict
import Colony.Defs.Data.Run
import Colony.Defs.Data.Spending
import Colony.Defs.Workflow.Schema

/-! The scheduler of an interval workflow: the ticks of any number of relay pods, each with the
time of the last fire in memory, over the shared table of claimed buckets. Instants are in
nanoseconds since the epoch. -/

namespace Colony.Workflow

open Colony.Core Colony.Data

def NANOS : Int := 1000000000

/-- Whether a whole interval has passed since the last fire; the first tick counts from itself. -/
def intervalShouldFire (dur : String) (lastFired : Option Int) (now : Int) : Bool :=
  match parseDurationSecs dur with
  | .ok secs => decide (secs ≤ ((now - lastFired.getD now).tdiv NANOS).natAbs)
  | .error _ => false

def intervalFireInstant (dur : String) (now : Int) : Option Int :=
  match parseDurationSecs dur with
  | .ok secs => if 0 < secs then some (now / NANOS / secs * secs * NANOS) else none
  | .error _ => none

structure IntervalFire where
  scheduledFor : Int
  now : Int
  deriving DecidableEq

inductive IntervalTick
  | started (now : Int)
  | isDue (last : Option Int) (fire : IntervalFire)
  | allowed (last : Option Int) (fire : IntervalFire)
  | won (fire : IntervalFire)
  deriving DecidableEq

structure IntervalScheduler where
  clock : Int
  fires : List IntervalFire
  runs : List IntervalFire
  lastFired : Dict Nat Int
  ticks : Dict Nat IntervalTick

/-- A step of a pod. A query may fail, and its answer may be lost after it committed. A pod drops
the time of the last fire at a tick that does not find the workflow active, and when it restarts. -/
inductive IntervalAct
  | start (pod elapsed : Nat)
  | read (pod : Nat) (ok : Bool)
  | authority (pod : Nat) (ok : Bool)
  | claim (pod : Nat) (commits answers : Bool)
  | create (pod : Nat) (commits answers : Bool)
  | retain (pod : Nat)
  | restart (pod : Nat)

namespace IntervalScheduler

def empty : IntervalScheduler := ⟨0, [], [], ∅, ∅⟩

def latest (s : IntervalScheduler) : Option Int := (s.fires.map (·.scheduledFor)).max?

def setTick (s : IntervalScheduler) (pod : Nat) : Option IntervalTick → IntervalScheduler
  | some tick => { s with ticks := s.ticks.insert pod tick }
  | none => { s with ticks := s.ticks.erase pod }

def anchor (s : IntervalScheduler) (pod : Nat) (now : Int) : IntervalScheduler :=
  { s with lastFired := s.lastFired.insert pod now }

def prefilter (s : IntervalScheduler) (dur : String) (pod : Nat) (last : Option Int) (now : Int) :
    IntervalScheduler :=
  if intervalShouldFire dur last now then
    s.setTick pod ((intervalFireInstant dur now).map fun instant => .isDue last ⟨instant, now⟩)
  else if last.isNone then (s.anchor pod now).setTick pod none
  else s.setTick pod none

def claim (s : IntervalScheduler) (pod : Nat) (fire : IntervalFire) (commits answers : Bool) :
    IntervalScheduler :=
  if fire.scheduledFor ∈ s.fires.map (·.scheduledFor) then
    if answers then (s.anchor pod fire.now).setTick pod none else s.setTick pod none
  else if commits then
    { s with fires := fire :: s.fires }.setTick pod (if answers then some (.won fire) else none)
  else s.setTick pod none

def create (s : IntervalScheduler) (pod : Nat) (fire : IntervalFire) (commits answers : Bool) :
    IntervalScheduler :=
  if !commits then s.setTick pod none
  else if answers then ({ s with runs := fire :: s.runs }.anchor pod fire.now).setTick pod none
  else { s with runs := fire :: s.runs }.setTick pod none

def step (dur : String) (s : IntervalScheduler) : IntervalAct → IntervalScheduler
  | .start pod elapsed => match s.ticks.lookup pod with
    | none => { s with clock := s.clock + elapsed }.setTick pod (some (.started (s.clock + elapsed)))
    | some _ => s
  | .read pod ok => match s.ticks.lookup pod with
    | some (.started now) =>
      let last := match s.lastFired.lookup pod with
        | some t => some t
        | none => if ok then s.latest else none
      s.prefilter dur pod last now
    | _ => s
  | .authority pod ok => match s.ticks.lookup pod with
    | some (.isDue last fire) => s.setTick pod (if ok then some (.allowed last fire) else none)
    | _ => s
  | .claim pod commits answers => match s.ticks.lookup pod with
    | some (.allowed _ fire) => s.claim pod fire commits answers
    | _ => s
  | .create pod commits answers => match s.ticks.lookup pod with
    | some (.won fire) => s.create pod fire commits answers
    | _ => s
  | .retain pod => match s.ticks.lookup pod with
    | none => { s with lastFired := s.lastFired.erase pod }
    | some _ => s
  | .restart pod => { s with lastFired := s.lastFired.erase pod }.setTick pod none

def Checked (dur : String) : IntervalTick → Prop
  | .started _ => True
  | .isDue last fire | .allowed last fire =>
    intervalShouldFire dur last fire.now = true ∧
      intervalFireInstant dur fire.now = some fire.scheduledFor
  | .won fire => intervalFireInstant dur fire.now = some fire.scheduledFor

def WonBy (s : IntervalScheduler) (pod : Nat) (fire : IntervalFire) : Prop :=
  s.ticks.lookup pod = some (.won fire)

variable {dur : String} {s : IntervalScheduler} {pod : Nat}

@[simp] theorem setTick_fires {tick : Option IntervalTick} : (s.setTick pod tick).fires = s.fires := by
  cases tick <;> rfl

@[simp] theorem setTick_runs {tick : Option IntervalTick} : (s.setTick pod tick).runs = s.runs := by
  cases tick <;> rfl

theorem lookup_setTick {tick : Option IntervalTick} (p : Nat) :
    (s.setTick pod tick).ticks.lookup p = if p = pod then tick else s.ticks.lookup p := by
  cases tick with
  | none => exact Dict.lookup_erase_if ..
  | some tick => exact Dict.lookup_insert_if ..

inductive Stepped (dur : String) (s : IntervalScheduler) : IntervalAct → IntervalScheduler → Prop
  | moved {act s'} (pod : Nat) (tick : Option IntervalTick) (hfires : s'.fires = s.fires)
      (hruns : s'.runs = s.runs)
      (hticks : ∀ p, s'.ticks.lookup p = if p = pod then tick else s.ticks.lookup p)
      (hwon : ∀ fire, tick ≠ some (.won fire)) (hchecked : ∀ t ∈ tick, Checked dur t) :
      Stepped dur s act s'
  | same {act s'} (hfires : s'.fires = s.fires) (hruns : s'.runs = s.runs)
      (hticks : s'.ticks = s.ticks) : Stepped dur s act s'
  | claimed {pod : Nat} {commits answers : Bool} (last : Option Int) (fire : IntervalFire)
      (tick : Option IntervalTick) (holds : s.ticks.lookup pod = some (.allowed last fire))
      (fresh : fire.scheduledFor ∉ s.fires.map (·.scheduledFor)) (wins : ∀ t ∈ tick, t = .won fire) :
      Stepped dur s (.claim pod commits answers) ({ s with fires := fire :: s.fires }.setTick pod tick)
  | created {act s'} (pod : Nat) (fire : IntervalFire) (holds : s.WonBy pod fire)
      (hfires : s'.fires = s.fires) (hruns : s'.runs = fire :: s.runs)
      (hticks : ∀ p, s'.ticks.lookup p = if p = pod then none else s.ticks.lookup p) :
      Stepped dur s act s'

theorem Stepped.ended {act : IntervalAct} : Stepped dur s act (s.setTick pod none) :=
  .moved pod none setTick_fires setTick_runs lookup_setTick nofun nofun

theorem Stepped.anchored {act : IntervalAct} {now : Int} :
    Stepped dur s act ((s.anchor pod now).setTick pod none) :=
  .moved pod none setTick_fires setTick_runs lookup_setTick nofun nofun

theorem prefilter_stepped {act : IntervalAct} {last : Option Int} {now : Int} :
    Stepped dur s act (s.prefilter dur pod last now) := by
  unfold prefilter
  split
  next hfire =>
    refine .moved pod _ setTick_fires setTick_runs lookup_setTick (fun fire => ?_) fun t ht => ?_
    · cases intervalFireInstant dur now <;> simp
    · obtain ⟨instant, hinstant, rfl⟩ := Option.map_eq_some_iff.1 ht
      exact ⟨hfire, hinstant⟩
  next =>
    split
    · exact .anchored
    · exact .ended

theorem claim_stepped {last : Option Int} {fire : IntervalFire} {commits answers : Bool}
    (holds : s.ticks.lookup pod = some (.allowed last fire)) :
    Stepped dur s (.claim pod commits answers) (s.claim pod fire commits answers) := by
  unfold claim
  split
  next =>
    split
    · exact .anchored
    · exact .ended
  next fresh =>
    split
    · refine .claimed last fire _ holds fresh fun t ht => ?_
      cases answers <;> cases ht
      rfl
    · exact .ended

theorem create_stepped {act : IntervalAct} {fire : IntervalFire} {commits answers : Bool}
    (holds : s.WonBy pod fire) : Stepped dur s act (s.create pod fire commits answers) := by
  unfold create
  split
  · exact .ended
  split
  · exact .created pod fire holds setTick_fires setTick_runs lookup_setTick
  · exact .created pod fire holds setTick_fires setTick_runs lookup_setTick

/-- Every claimed bucket is the one of its tick, and a run is created at most once for it. -/
structure Sound (dur : String) (s : IntervalScheduler) : Prop where
  checked : ∀ pod, ∀ tick ∈ s.ticks.lookup pod, Checked dur tick
  instant : ∀ fire ∈ s.fires, intervalFireInstant dur fire.now = some fire.scheduledFor
  spending : Spending (·.scheduledFor) (s.fires.map (·.scheduledFor)) s.WonBy s.runs
  kept : ∀ fire, (fire ∈ s.runs ∨ ∃ pod, s.WonBy pod fire) → fire ∈ s.fires

theorem step_stepped (hs : s.Sound dur) (act : IntervalAct) : Stepped dur s act (s.step dur act) := by
  cases act with
  | start pod elapsed =>
    dsimp only [step]
    split
    · refine .moved pod _ setTick_fires setTick_runs lookup_setTick
        (fun fire h => by cases h) fun t ht => ?_
      cases ht
      trivial
    · exact .same rfl rfl rfl
  | read pod ok =>
    dsimp only [step]
    split
    · exact prefilter_stepped
    · exact .same rfl rfl rfl
  | authority pod ok =>
    dsimp only [step]
    split
    next last fire hold =>
      refine .moved pod _ setTick_fires setTick_runs lookup_setTick (fun fire => ?_) fun t ht => ?_
      · cases ok <;> simp
      · cases ok <;> cases ht
        exact hs.checked pod (.isDue last fire) hold
    · exact .same rfl rfl rfl
  | claim pod commits answers =>
    dsimp only [step]
    split
    next last fire hold => exact claim_stepped hold
    · exact .same rfl rfl rfl
  | create pod commits answers =>
    dsimp only [step]
    split
    next fire hold => exact create_stepped hold
    · exact .same rfl rfl rfl
  | retain pod =>
    dsimp only [step]
    split <;> exact .same rfl rfl rfl
  | restart pod => exact .moved pod none setTick_fires setTick_runs lookup_setTick nofun nofun

theorem sound_empty : empty.Sound dur where
  checked pod tick h := by cases h
  instant fire h := by cases h
  spending := Spending.start.lose fun pod fire h => by cases h
  kept fire h := by
    rcases h with h | ⟨pod, h⟩
    · cases h
    · cases h

theorem Sound.step (hs : s.Sound dur) (act : IntervalAct) : (s.step dur act).Sound dur := by
  have hstepped := step_stepped hs act
  generalize s.step dur act = s' at hstepped
  cases hstepped with
  | same hfires hruns hticks =>
    obtain ⟨clock, fires, runs, lastFired, ticks⟩ := s'
    cases hfires
    cases hruns
    cases hticks
    exact ⟨hs.checked, hs.instant, hs.spending, hs.kept⟩
  | moved pod tick hfires hruns hticks hwon hchecked =>
    have hold : ∀ p fire, s'.WonBy p fire → s.WonBy p fire := by
      intro p fire h
      rw [WonBy, hticks] at h
      split at h
      · exact (hwon fire h).elim
      · exact h
    refine ⟨fun p t ht => ?_, hfires ▸ hs.instant, hfires ▸ hruns ▸ hs.spending.lose hold,
      fun fire h => hfires ▸ hs.kept fire (h.imp (hruns ▸ ·) fun ⟨p, hp⟩ => ⟨p, hold p fire hp⟩)⟩
    rw [hticks] at ht
    split at ht
    · exact hchecked t ht
    · exact hs.checked p t ht
  | @claimed pod commits answers last fire tick holds fresh wins =>
    have hfire := (hs.checked pod _ holds).2
    have hold : ∀ p x, ({ s with fires := fire :: s.fires }.setTick pod tick).WonBy p x →
        (p = pod ∧ x = fire) ∨ s.WonBy p x := by
      intro p x h
      rw [WonBy, lookup_setTick] at h
      split at h
      next hp =>
        cases wins _ h
        exact .inl ⟨hp, rfl⟩
      · exact .inr h
    refine ⟨fun p t ht => ?_, fun x hx => ?_, ?_, fun x hx => ?_⟩
    · rw [lookup_setTick] at ht
      split at ht
      · cases wins t ht
        exact hfire
      · exact hs.checked p t ht
    · rcases List.mem_cons.1 (setTick_fires ▸ hx) with rfl | hx
      · exact hfire
      · exact hs.instant x hx
    · rw [setTick_fires, setTick_runs]
      exact hs.spending.draw fresh hold
    · rw [setTick_fires]
      rcases hx with hx | ⟨p, hp⟩
      · exact List.mem_cons_of_mem _ (hs.kept x (.inl (by simpa using hx)))
      · rcases hold p x hp with ⟨-, rfl⟩ | hp
        · exact List.mem_cons_self
        · exact List.mem_cons_of_mem _ (hs.kept x (.inr ⟨p, hp⟩))
  | created pod fire holds hfires hruns hticks =>
    have hold : ∀ p x, s'.WonBy p x → p ≠ pod ∧ s.WonBy p x := by
      intro p x h
      rw [WonBy, hticks] at h
      split at h
      · cases h
      next hp => exact ⟨hp, h⟩
    refine ⟨fun p t ht => ?_, hfires ▸ hs.instant, hfires ▸ hruns ▸ hs.spending.spend holds hold,
      fun x hx => ?_⟩
    · rw [hticks] at ht
      split at ht
      · cases ht
      · exact hs.checked p t ht
    · rw [hfires]
      rcases hx with hx | ⟨p, hp⟩
      · rcases List.mem_cons.1 (hruns ▸ hx) with rfl | hx
        · exact hs.kept x (.inr ⟨pod, holds⟩)
        · exact hs.kept x (.inl hx)
      · exact hs.kept x (.inr ⟨p, (hold p x hp).2⟩)

/-- A new bucket is claimed only by a tick that measured from an instant no earlier than the time
of any fire so far, and no later than its own. -/
def fresh (s : IntervalScheduler) : IntervalAct → Bool
  | .claim pod _ _ => match s.ticks.lookup pod with
    | some (.allowed last fire) => decide (fire.scheduledFor ∈ s.fires.map (·.scheduledFor)) ||
      last.all fun last => decide (last ≤ fire.now) && s.fires.all fun x => decide (x.now ≤ last)
    | _ => true
  | _ => true

def Spaced (secs : Nat) (fires : List IntervalFire) : Prop :=
  fires.Pairwise fun later earlier => earlier.now + secs * NANOS ≤ later.now

theorem fireInstant_eq {secs : Nat} {now t : Int} (hdur : parseDurationSecs dur = .ok secs)
    (h : intervalFireInstant dur now = some t) :
    0 < secs ∧ t = now / (secs * NANOS) * secs * NANOS := by
  simp only [intervalFireInstant, hdur, Option.ite_none_right_eq_some, Option.some.injEq] at h
  refine ⟨h.1, ?_⟩
  rw [Int.mul_comm secs, ← Int.ediv_ediv_of_nonneg (by decide)]
  exact h.2.symm

theorem anchor_of_shouldFire {secs : Nat} {last : Option Int} {now : Int}
    (hdur : parseDurationSecs dur = .ok secs) (hsecs : 0 < secs)
    (hfire : intervalShouldFire dur last now = true) :
    ∃ t, last = some t ∧ (t ≤ now → t + secs * NANOS ≤ now) := by
  rw [intervalShouldFire, hdur, decide_eq_true_eq] at hfire
  cases last with
  | none => simp at hfire; omega
  | some t =>
    refine ⟨t, rfl, fun ht => ?_⟩
    rw [Option.getD_some, Int.tdiv_eq_ediv_of_nonneg (by omega)] at hfire
    have hnanos : (0 : Int) < NANOS := by decide
    have hle : (secs : Int) ≤ (now - t) / NANOS := by
      have := Int.ediv_nonneg (a := now - t) (b := NANOS) (by omega) (Int.le_of_lt hnanos)
      omega
    have := (Int.le_ediv_iff_mul_le hnanos).1 hle
    omega

theorem Spaced.step {secs : Nat} (hdur : parseDurationSecs dur = .ok secs) (hsound : s.Sound dur)
    (hs : Spaced secs s.fires) {act : IntervalAct} (hfresh : s.fresh act = true) :
    Spaced secs (s.step dur act).fires := by
  have hstepped := step_stepped hsound act
  generalize s.step dur act = s' at hstepped
  cases hstepped with
  | same hfires => exact hfires ▸ hs
  | moved pod tick hfires => exact hfires ▸ hs
  | created pod fire holds hfires => exact hfires ▸ hs
  | @claimed pod commits answers last fire tick holds unclaimed wins =>
    obtain ⟨hfire, hinstant⟩ := hsound.checked pod _ holds
    obtain ⟨t, rfl, hpassed⟩ := anchor_of_shouldFire hdur (fireInstant_eq hdur hinstant).1 hfire
    obtain ⟨hown, hfires⟩ : t ≤ fire.now ∧ ∀ x ∈ s.fires, x.now ≤ t := by
      simpa [fresh, holds, unclaimed] using hfresh
    rw [setTick_fires]
    refine List.Pairwise.cons (fun x hx => ?_) hs
    have := hfires x hx
    have := hpassed hown
    omega

/-- No two runs are of one bucket; and where every claim is made by a tick that measured from an
instant no earlier than the last fire, two runs are at least an interval apart. -/
theorem interval_runs {secs : Nat} (hdur : parseDurationSecs dur = .ok secs)
    (acts : List IntervalAct) :
    let s := runFrom (step dur) empty acts
    (s.runs.Pairwise fun x y => x.now / (secs * NANOS) ≠ y.now / (secs * NANOS)) ∧
      (Along (step dur) (fun s act => s.fresh act = true) empty acts →
        s.runs.Pairwise fun x y => secs * NANOS ≤ (x.now - y.now).natAbs) := by
  intro s
  have hsound : s.Sound dur :=
    runFrom_history (p := fun _ s => Sound dur s) sound_empty (fun _ act hs => hs.step act) acts
  constructor
  · have hinstant : ∀ x ∈ s.runs, x.scheduledFor = x.now / (secs * NANOS) * secs * NANOS :=
      fun x hx => (fireInstant_eq hdur (hsound.instant x (hsound.kept x (.inl hx)))).2
    refine hsound.spending.apart.imp_of_mem ?_
    intro x y hx hy hne heq
    exact hne (by rw [hinstant x hx, hinstant y hy, heq])
  · intro hfresh
    obtain ⟨-, hspaced⟩ := hfresh.preserves (p := fun s => Sound dur s ∧ Spaced secs s.fires)
      (fun s act hs hok => ⟨hs.1.step act, hs.2.step hdur hs.1 hok⟩)
      ⟨sound_empty, List.Pairwise.nil⟩
    have hapart : s.fires.Pairwise fun x y => secs * NANOS ≤ (x.now - y.now).natAbs :=
      hspaced.imp fun h => by omega
    have : Std.Symm fun x y : IntervalFire => secs * NANOS ≤ (x.now - y.now).natAbs :=
      ⟨fun x y h => by omega⟩
    refine hsound.spending.apart.imp_of_mem ?_
    intro x y hx hy hne
    exact hapart.forall (hsound.kept x (.inl hx)) (hsound.kept y (.inl hy)) fun heq =>
      hne (heq ▸ rfl)

section Sample

/-- A tick of a pod that starts some seconds after the last one, with every query answered. -/
def tickAfter (pod secs : Nat) : List IntervalAct :=
  [.start pod (secs * 1000000000), .read pod true, .authority pod true, .claim pod true true,
    .create pod true true]

def onTime : List IntervalAct := tickAfter 0 0 ++ tickAfter 0 60 ++ tickAfter 0 60

-- The second pod ticks one second after the first.
def bounced : List IntervalAct := tickAfter 0 59 ++ tickAfter 0 60 ++ tickAfter 1 1

end Sample

theorem interval_runs_onTime :
    Along (step "1m") (fun s act => s.fresh act = true) empty onTime ∧
      (runFrom (step "1m") empty onTime).runs.length = 2 ∧
      (runFrom (step "1m") empty onTime).runs.Pairwise
        fun x y => (60 : Nat) * NANOS ≤ (x.now - y.now).natAbs := by
  have hfresh : Along (step "1m") (fun s act => s.fresh act = true) empty onTime := by
    decide +kernel
  exact ⟨hfresh, by decide +kernel, (interval_runs (by decide +kernel) onTime).2 hfresh⟩

theorem fired_within_interval : parseDurationSecs "1m" = .ok 60 ∧
    (runFrom (step "1m") empty bounced).runs =
      [⟨120 * NANOS, 120 * NANOS⟩, ⟨60 * NANOS, 119 * NANOS⟩] := by
  decide +kernel

end IntervalScheduler

end Colony.Workflow
