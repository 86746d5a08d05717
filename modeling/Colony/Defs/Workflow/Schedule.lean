import Colony.Defs.Data.Dict
import Colony.Defs.Data.Keyed
import Colony.Defs.Data.Run
import Colony.Defs.Data.Spending
import Colony.Defs.Workflow.Schema

namespace Colony.Workflow

open Colony.Core Colony.Data

def MAX_CRON_CATCH_UP_OCCURRENCES : Nat := 10000

/-- The libraries that parse a cron expression and a timezone and iterate the schedule: the next
occurrence of a normalized expression comes after the instant it is asked for. -/
structure CronLibs extends Parsers where
  nextAfter : (expr timezone : String) → Int → Option Int
  nextAfter_gt : ∀ expr timezone t u, nextAfter expr timezone t = some u → t < u

structure CronCatchUp where
  firstMissed : Int
  lastMissed : Int
  occurrenceCount : Nat
  deriving DecidableEq

namespace CronCatchUp

def covers (summary : CronCatchUp) (t : Int) : Bool :=
  decide (summary.firstMissed ≤ t) && decide (t ≤ summary.lastMissed)

def add (occurrence : Int) : Option CronCatchUp → CronCatchUp
  | none => ⟨occurrence, occurrence, 1⟩
  | some summary =>
    { summary with lastMissed := occurrence, occurrenceCount := summary.occurrenceCount + 1 }

end CronCatchUp

def catchUpFrom (next : Int → Option Int) (now : Int) (max : Nat) :
    Nat → Int → Option CronCatchUp → Except String (Option CronCatchUp)
  | 0, _, found => .ok found
  | fuel + 1, cursor, found => match next cursor with
    | none => .ok found
    | some occurrence =>
      if now < occurrence then .ok found
      else if max < (CronCatchUp.add occurrence found).occurrenceCount then
        .error ("more than " ++ toString max ++
          " due occurrences require a bounded recovery policy")
      else catchUpFrom next now max fuel occurrence (some (CronCatchUp.add occurrence found))

def cronCatchUp (lib : CronLibs) (expr timezone : String) (after now : Int) (max : Nat) :
    Except String (Option CronCatchUp) :=
  if !lib.timezone timezone then .error ("invalid IANA timezone '" ++ timezone ++ "'")
  else match lib.cron (normalizeCron expr) with
    | .error e => .error ("invalid cron expression '" ++ expr ++ "': " ++ e)
    | .ok () => catchUpFrom (lib.nextAfter (normalizeCron expr) timezone) now max (max + 1) after none

structure CronWorkflow where
  expr : String
  timezone : Option String
  createdAt : Int
  updatedAt : Int

namespace CronWorkflow

def watermark (workflow : CronWorkflow) : Option Int → Int
  | some last => max (max last workflow.createdAt) workflow.updatedAt
  | none => max workflow.createdAt workflow.updatedAt

def due (lib : CronLibs) (workflow : CronWorkflow) (last : Option Int) (now : Int) :
    Option CronCatchUp :=
  match cronCatchUp lib workflow.expr (workflow.timezone.getD "UTC") (workflow.watermark last) now
      MAX_CRON_CATCH_UP_OCCURRENCES with
  | .ok summary => summary
  | .error _ => none

end CronWorkflow

inductive Tick
  | started (now : Int)
  | isDue (last : Option Int) (summary : CronCatchUp)
  | allowed (last : Option Int) (summary : CronCatchUp)
  | won (summary : CronCatchUp)
  deriving DecidableEq

structure Scheduler where
  fires : List Int
  runs : List CronCatchUp
  pods : Dict Nat Tick

/-- A step of a pod's tick. A query may fail, and its answer may be lost after it committed. -/
inductive TickAct
  | start (pod : Nat) (now : Int)
  | read (pod : Nat) (ok : Bool)
  | authority (pod : Nat) (ok : Bool)
  | claim (pod : Nat) (commits answers : Bool)
  | create (pod : Nat) (commits : Bool)
  | stop (pod : Nat)

namespace Scheduler

def empty : Scheduler := ⟨[], [], ∅⟩

def latest (s : Scheduler) : Option Int := s.fires.max?

def setPod (s : Scheduler) (pod : Nat) : Option Tick → Scheduler
  | some tick => { s with pods := s.pods.insert pod tick }
  | none => { s with pods := s.pods.erase pod }

def step (lib : CronLibs) (workflow : CronWorkflow) (s : Scheduler) : TickAct → Scheduler
  | .start pod now => match s.pods.lookup pod with
    | none => s.setPod pod (some (.started now))
    | some _ => s
  | .read pod ok => match s.pods.lookup pod with
    | some (.started now) =>
      s.setPod pod (if ok then (workflow.due lib s.latest now).map (.isDue s.latest) else none)
    | _ => s
  | .authority pod ok => match s.pods.lookup pod with
    | some (.isDue last summary) => s.setPod pod (if ok then some (.allowed last summary) else none)
    | _ => s
  | .claim pod commits answers => match s.pods.lookup pod with
    | some (.allowed _ summary) =>
      if !commits || s.fires.contains summary.lastMissed then s.setPod pod none
      else { s with fires := summary.lastMissed :: s.fires }.setPod pod
        (if answers then some (.won summary) else none)
    | _ => s
  | .create pod commits => match s.pods.lookup pod with
    | some (.won summary) =>
      if commits then { s with runs := summary :: s.runs }.setPod pod none else s.setPod pod none
    | _ => s
  | .stop pod => s.setPod pod none

end Scheduler

section CatchUp

variable {lib : CronLibs} {workflow : CronWorkflow} {next : Int → Option Int}

theorem catchUpFrom_bounds (hnext : ∀ t u, next t = some u → t < u) {now after : Int} {max fuel : Nat}
    {cursor : Int} {found : Option CronCatchUp} {summary : CronCatchUp}
    (hfound : ∀ x ∈ found, after < x.firstMissed ∧ x.firstMissed ≤ x.lastMissed ∧
      x.lastMissed = cursor)
    (hcursor : after ≤ cursor)
    (hrun : catchUpFrom next now max fuel cursor found = .ok (some summary)) :
    after < summary.firstMissed ∧ summary.firstMissed ≤ summary.lastMissed := by
  induction fuel generalizing cursor found with
  | zero =>
    cases hrun
    exact ⟨(hfound summary rfl).1, (hfound summary rfl).2.1⟩
  | succ fuel ih =>
    rw [catchUpFrom] at hrun
    split at hrun
    · cases hrun
      exact ⟨(hfound summary rfl).1, (hfound summary rfl).2.1⟩
    · next occurrence hoccurrence =>
      have hlt := hnext cursor occurrence hoccurrence
      split_ifs at hrun
      · cases hrun
        exact ⟨(hfound summary rfl).1, (hfound summary rfl).2.1⟩
      · refine ih ?_ (Int.le_trans hcursor (Int.le_of_lt hlt)) hrun
        rintro _ ⟨⟩
        cases found with
        | none => exact ⟨Int.lt_of_le_of_lt hcursor hlt, Int.le_refl _, rfl⟩
        | some x =>
          obtain ⟨hafter, hle, rfl⟩ := hfound x rfl
          exact ⟨hafter, Int.le_trans hle (Int.le_of_lt hlt), rfl⟩

theorem CronWorkflow.due_bounds {last : Option Int} {now : Int} {summary : CronCatchUp}
    (hdue : workflow.due lib last now = some summary) :
    workflow.watermark last < summary.firstMissed ∧ summary.firstMissed ≤ summary.lastMissed := by
  unfold due cronCatchUp at hdue
  split at hdue
  · next found hfound =>
    subst hdue
    split at hfound
    · cases hfound
    · split at hfound
      · cases hfound
      · exact catchUpFrom_bounds (lib.nextAfter_gt _ _) (fun x hx => (Option.not_mem_none x hx).elim)
          (Int.le_refl _) hfound
  · cases hdue

theorem CronWorkflow.le_watermark {last : Int} : last ≤ workflow.watermark (some last) := by
  dsimp only [watermark]
  omega

end CatchUp

namespace Scheduler

variable {lib : CronLibs} {workflow : CronWorkflow} {s : Scheduler}

def waits (workflow : CronWorkflow) : Tick → Prop
  | .started _ => True
  | .isDue last summary | .allowed last summary =>
    workflow.watermark last < summary.firstMissed ∧ summary.firstMissed ≤ summary.lastMissed
  | .won _ => False

inductive Stepped (workflow : CronWorkflow) (s : Scheduler) (act : TickAct) : Scheduler → Prop
  | same : Stepped workflow s act s
  | moved (pod : Nat) {tick : Option Tick} (waits : ∀ t ∈ tick, waits workflow t) :
    Stepped workflow s act (s.setPod pod tick)
  | claimed {pod : Nat} {last : Option Int} {summary : CronCatchUp} {answers : Bool}
      (claims : act = .claim pod true answers)
      (holds : s.pods.lookup pod = some (.allowed last summary))
      (fresh : summary.lastMissed ∉ s.fires) {tick : Option Tick}
      (wins : tick = some (.won summary) ∨ tick = none) :
    Stepped workflow s act ({ s with fires := summary.lastMissed :: s.fires }.setPod pod tick)
  | created {pod : Nat} {summary : CronCatchUp} (holds : s.pods.lookup pod = some (.won summary)) :
    Stepped workflow s act ({ s with runs := summary :: s.runs }.setPod pod none)

def Waiting (workflow : CronWorkflow) (s : Scheduler) : Prop :=
  ∀ pod tick, s.pods.lookup pod = some tick → waits workflow tick ∨ ∃ summary, tick = .won summary

theorem step_stepped (lib : CronLibs) (hw : s.Waiting workflow) (act : TickAct) :
    Stepped workflow s act (s.step lib workflow act) := by
  cases act with
  | start pod now =>
    dsimp only [step]
    split
    · exact .moved pod fun t ht => by cases ht; trivial
    · exact .same
  | read pod ok =>
    dsimp only [step]
    split
    · next now _ =>
      refine .moved pod fun t ht => ?_
      split at ht
      · obtain ⟨summary, hdue, rfl⟩ := Option.map_eq_some_iff.1 ht
        exact CronWorkflow.due_bounds hdue
      · cases ht
    · exact .same
  | authority pod ok =>
    dsimp only [step]
    split
    · next last summary holds =>
      refine .moved pod fun t ht => ?_
      split at ht
      · cases ht
        exact ((hw pod _ holds).resolve_right (by rintro ⟨_, ⟨⟩⟩) :)
      · cases ht
    · exact .same
  | claim pod commits answers =>
    dsimp only [step]
    split
    · next last summary holds =>
      split
      · exact .moved pod fun t ht => by cases ht
      · next hclaim =>
        simp only [Bool.or_eq_true, Bool.not_eq_true', not_or, Bool.not_eq_false,
          List.contains_iff_mem] at hclaim
        obtain ⟨rfl, hfresh⟩ := hclaim
        refine .claimed rfl holds hfresh ?_
        cases answers with
        | true => exact .inl rfl
        | false => exact .inr rfl
    · exact .same
  | create pod commits =>
    dsimp only [step]
    split
    · next summary holds =>
      split
      · exact .created holds
      · exact .moved pod fun t ht => by cases ht
    · exact .same
  | stop pod => exact .moved pod fun _ ht => (Option.not_mem_none _ ht).elim

theorem lookup_setPod {pod pod' : Nat} {tick : Option Tick} :
    (s.setPod pod tick).pods.lookup pod' = if pod' = pod then tick else s.pods.lookup pod' := by
  cases tick with
  | none => exact Dict.lookup_erase_if _ _ _
  | some t => exact Dict.lookup_insert_if _ _ _ _

def WonBy (s : Scheduler) (pod : Nat) (summary : CronCatchUp) : Prop :=
  s.pods.lookup pod = some (.won summary)

def Won (s : Scheduler) (summary : CronCatchUp) : Prop :=
  summary ∈ s.runs ∨ ∃ pod, s.WonBy pod summary

theorem wonBy_setPod {pod pod' : Nat} {tick : Option Tick} {summary : CronCatchUp} :
    (s.setPod pod tick).WonBy pod' summary ↔
      (pod' = pod ∧ tick = some (.won summary)) ∨ (pod' ≠ pod ∧ s.WonBy pod' summary) := by
  unfold WonBy
  rw [lookup_setPod]
  split <;> simp_all

@[simp] theorem setPod_runs {pod : Nat} {tick : Option Tick} :
    (s.setPod pod tick).runs = s.runs := by
  cases tick <;> rfl

@[simp] theorem setPod_fires {pod : Nat} {tick : Option Tick} :
    (s.setPod pod tick).fires = s.fires := by
  cases tick <;> rfl

theorem Waiting.setPod (hw : s.Waiting workflow) {pod : Nat} {tick : Option Tick}
    (htick : ∀ t ∈ tick, waits workflow t ∨ ∃ summary, t = .won summary) :
    (s.setPod pod tick).Waiting workflow := by
  intro pod' t ht
  rw [lookup_setPod] at ht
  split at ht
  · exact htick t ht
  · exact hw pod' t ht

section Stepped

variable {pod : Nat} {tick : Option Tick} {summary : CronCatchUp}

theorem wonBy_moved (htick : ∀ t ∈ tick, waits workflow t) (p : Nat) (x : CronCatchUp)
    (h : (s.setPod pod tick).WonBy p x) : s.WonBy p x := by
  rcases wonBy_setPod.1 h with ⟨-, hwon⟩ | ⟨-, h⟩
  · exact (htick _ hwon).elim
  · exact h

theorem wonBy_claimed (wins : tick = some (.won summary) ∨ tick = none) (p : Nat) (x : CronCatchUp)
    (h : (s.setPod pod tick).WonBy p x) : (p = pod ∧ x = summary) ∨ s.WonBy p x := by
  refine (wonBy_setPod.1 h).imp (fun ⟨hp, hwon⟩ => ⟨hp, ?_⟩) (·.2)
  rcases wins with rfl | rfl <;> cases hwon
  rfl

theorem wonBy_created (p : Nat) (x : CronCatchUp) (h : (s.setPod pod none).WonBy p x) :
    p ≠ pod ∧ s.WonBy p x := by
  rcases wonBy_setPod.1 h with ⟨-, h⟩ | h
  · cases h
  · exact h

end Stepped

structure Claimed (workflow : CronWorkflow) (s : Scheduler) : Prop where
  waiting : s.Waiting workflow
  spending : Spending (·.lastMissed) s.fires s.WonBy s.runs

theorem Claimed.step (lib : CronLibs) (hs : s.Claimed workflow) (act : TickAct) :
    (s.step lib workflow act).Claimed workflow := by
  have hstepped := step_stepped lib hs.waiting act
  generalize s.step lib workflow act = s' at hstepped
  cases hstepped with
  | same => exact hs
  | moved pod waits =>
    refine ⟨hs.waiting.setPod fun t ht => .inl (waits t ht), ?_⟩
    rw [setPod_fires, setPod_runs]
    exact hs.spending.lose (wonBy_moved waits)
  | @claimed pod last summary answers claims holds fresh tick wins =>
    have hwaiting : { s with fires := summary.lastMissed :: s.fires }.Waiting workflow := hs.waiting
    refine ⟨hwaiting.setPod fun t ht => ?_, ?_⟩
    · rcases wins with rfl | rfl <;> cases ht
      exact .inr ⟨summary, rfl⟩
    · rw [setPod_fires, setPod_runs]
      exact hs.spending.draw fresh (wonBy_claimed wins)
  | @created pod summary holds =>
    have hwaiting : { s with runs := summary :: s.runs }.Waiting workflow := hs.waiting
    refine ⟨hwaiting.setPod fun t ht => (Option.not_mem_none t ht).elim, ?_⟩
    rw [setPod_fires, setPod_runs]
    exact hs.spending.spend holds wonBy_created

theorem claimed_empty : Scheduler.empty.Claimed workflow where
  waiting pod tick h := by cases h
  spending := Spending.start.lose fun pod summary h => by cases h

/-- A claim that commits is of an instant that was claimed already, and then refused, or is made
while the latest claimed fire is still the one the tick read. -/
def unmoved (s : Scheduler) : TickAct → Bool
  | .claim pod commits _ => match s.pods.lookup pod with
    | some (.allowed last summary) =>
      !commits || s.fires.contains summary.lastMissed || s.latest == last
    | _ => true
  | _ => true

/-- Of two claims that were won, the later one covers only what lies after the earlier one. -/
def Apart (s : Scheduler) : Prop :=
  ∀ x y, s.Won x → s.Won y → x.lastMissed < y.lastMissed → x.lastMissed < y.firstMissed

theorem lt_of_latest {last : Option Int} {t : Int} (hlatest : s.latest = last)
    {summary : CronCatchUp} (hdue : workflow.watermark last < summary.firstMissed)
    (ht : t ∈ s.fires) : t < summary.firstMissed := by
  obtain ⟨top, htop⟩ := Option.isSome_iff_exists.1 (List.isSome_max?_of_mem ht)
  have hle : t ≤ top := (List.max?_eq_some_iff.1 htop).2 t ht
  have hread : last = some top := hlatest.symm.trans htop
  rw [hread] at hdue
  have hmark : top ≤ workflow.watermark (some top) := CronWorkflow.le_watermark
  omega

theorem Apart.step (lib : CronLibs) (hclaimed : s.Claimed workflow) (hs : s.Apart) {act : TickAct}
    (hkeep : s.unmoved act = true) : (s.step lib workflow act).Apart := by
  have hstepped := step_stepped lib hclaimed.waiting act
  generalize s.step lib workflow act = s' at hstepped
  cases hstepped with
  | same => exact hs
  | moved pod waits =>
    have hold {x : CronCatchUp} (hx : (s.setPod pod _).Won x) : s.Won x :=
      hx.imp (setPod_runs ▸ ·) fun ⟨p, hp⟩ => ⟨p, wonBy_moved waits p x hp⟩
    exact fun x y hx hy => hs x y (hold hx) (hold hy)
  | @claimed pod last summary answers claims holds fresh tick wins =>
    subst claims
    have hlatest : s.latest = last := by simpa [unmoved, holds, fresh] using hkeep
    obtain ⟨hdue, hle⟩ : waits workflow (.allowed last summary) :=
      (hclaimed.waiting pod _ holds).resolve_right (by rintro ⟨_, ⟨⟩⟩)
    have hold {x : CronCatchUp} (hx : ({ s with fires := summary.lastMissed :: s.fires }.setPod
        pod tick).Won x) : x = summary ∨ s.Won x := by
      rcases hx with hx | ⟨p, hx⟩
      · exact .inr (.inl (by simpa using hx))
      · exact (wonBy_claimed wins p x hx).imp And.right fun hx => .inr ⟨p, hx⟩
    intro x y hx hy hlt
    rcases hold hx with rfl | hx' <;> rcases hold hy with rfl | hy'
    · exact absurd hlt (Int.lt_irrefl _)
    · have hbefore := lt_of_latest hlatest hdue (hclaimed.spending.wasDrawn y hy')
      omega
    · exact lt_of_latest hlatest hdue (hclaimed.spending.wasDrawn x hx')
    · exact hs x y hx' hy' hlt
  | @created pod summary holds =>
    have hold {x : CronCatchUp}
        (hx : ({ s with runs := summary :: s.runs }.setPod pod none).Won x) : s.Won x := by
      rcases hx with hx | ⟨p, hx⟩
      · rw [setPod_runs] at hx
        rcases List.mem_cons.1 hx with rfl | hx
        · exact .inr ⟨pod, holds⟩
        · exact .inl hx
      · exact .inr ⟨p, (wonBy_created p x hx).2⟩
    exact fun x y hx hy => hs x y (hold hx) (hold hy)

theorem run_claims_once (lib : CronLibs) (workflow : CronWorkflow) (acts : List TickAct) (t : Int) :
    ((runFrom (step lib workflow) .empty acts).runs.filter (·.lastMissed == t)).length ≤ 1 := by
  have hclaimed := runFrom_history (p := fun _ s => Claimed workflow s) claimed_empty
    (fun _ act hs => hs.step lib act) acts
  refine filter_length_le_one hclaimed.spending.apart fun x _ y _ hne hx => ?_
  simp only [beq_iff_eq, beq_eq_false_iff_ne] at hx ⊢
  exact fun hy => hne (hx.trans hy.symm)

/-- No instant is the claimed one of two runs.  If every claim of an instant that was not claimed
before is made while the latest fire is the one its tick read, no instant lies in the covered interval
of two runs either. -/
theorem run_covers_once (lib : CronLibs) (workflow : CronWorkflow) (acts : List TickAct) :
    let s := runFrom (step lib workflow) .empty acts
    (∀ t, (s.runs.filter (·.lastMissed == t)).length ≤ 1) ∧
      (Along (step lib workflow) (fun s act => s.unmoved act = true) .empty acts →
        ∀ t, (s.runs.filter (·.covers t)).length ≤ 1) := by
  refine ⟨run_claims_once lib workflow acts, fun hkeep t => ?_⟩
  obtain ⟨hclaimed, hapart⟩ := hkeep.preserves (p := fun s => Claimed workflow s ∧ s.Apart)
    (fun s act hs hkeep => ⟨hs.1.step lib act, hs.2.step lib hs.1 hkeep⟩)
    ⟨claimed_empty, fun x y hx => by rcases hx with hx | ⟨pod, hx⟩ <;> cases hx⟩
  refine filter_length_le_one hclaimed.spending.apart fun x hx y hy hne hcx => ?_
  have hxy := hapart x y (.inl hx) (.inl hy)
  have hyx := hapart y x (.inl hy) (.inl hx)
  simp only [CronCatchUp.covers, Bool.and_eq_true, decide_eq_true_eq, Bool.and_eq_false_iff,
    decide_eq_false_iff_not] at hcx ⊢
  omega

section Sample

def minutes : CronLibs where
  publicKey _ := true
  cron _ := .ok ()
  timezone _ := true
  nextAfter _ _ t := some (60 * (t / 60 + 1))
  nextAfter_gt _ _ t u h := by
    cases h
    omega

def newWorkflow : CronWorkflow := ⟨"* * * * *", none, 0, 0⟩

def ticks (pod : Nat) : List TickAct :=
  [.authority pod true, .claim pod true true, .create pod true]

/-- Two pods race for the same minute, and one of them goes on to the next. -/
def inTurn : List TickAct :=
  [.start 0 60, .read 0 true, .start 1 65, .read 1 true] ++ ticks 0 ++ ticks 1 ++
    [.start 1 125, .read 1 true] ++ ticks 1

def straddling : List TickAct :=
  [.start 0 60, .read 0 true, .start 1 125, .read 1 true] ++ ticks 0 ++ ticks 1

end Sample

theorem run_covers_once_inTurn :
    Along (step minutes newWorkflow) (fun s act => s.unmoved act = true) .empty inTurn ∧
      (runFrom (step minutes newWorkflow) .empty inTurn).runs = [⟨120, 120, 1⟩, ⟨60, 60, 1⟩] ∧
      ((runFrom (step minutes newWorkflow) .empty inTurn).runs.filter (·.covers 60)).length ≤ 1 := by
  have hkeep : Along (step minutes newWorkflow) (fun s act => s.unmoved act = true) .empty inTurn := by
    decide +kernel
  exact ⟨hkeep, by decide +kernel, (run_covers_once minutes newWorkflow inTurn).2 hkeep 60⟩

theorem covered_twice :
    ((runFrom (step minutes newWorkflow) .empty straddling).runs.filter (·.covers 60)) =
      [⟨60, 120, 2⟩, ⟨60, 60, 1⟩] := by
  decide +kernel

end Scheduler

end Colony.Workflow
