import Colony.Defs.Push.Store
import Mathlib.Data.List.Dedup
import Mathlib.Data.List.Find

namespace Colony.Push

open Colony.Core Colony.Data

inductive EnqueueWakeOutcome
  | enqueued (id : Uuid)
  | duplicate (id : Uuid)
  | inactiveLease
  deriving DecidableEq

structure InvalidData where
  text : String
  deriving DecidableEq

abbrev JobKey := EndpointHash × EventId

def Wake.job (w : Wake) : JobKey := (w.endpointHash, w.eventId)

/-- A lease row that is read: the author and the installation, the generation and the endpoint. -/
abbrev LeaseRow := (PublicKey × String) × Int × EndpointHash

def Db.currentLease (db : Db) (community : CommunityId) (now : Int) (pair : PublicKey × String) :
    Option (Int × EndpointHash) :=
  (db.leases.lookup ⟨community, pair.1, pair.2⟩).bind fun l =>
    if l.effective now then l.active.map fun active => (l.version.generation, active.endpointHash)
    else none

def Db.leaseRows (db : Db) (community : CommunityId) (now : Int) (requests : List WakeRequest) :
    List LeaseRow :=
  (requests.map fun r => (r.author, r.installation)).dedup.filterMap fun pair =>
    (db.currentLease community now pair).map fun lease => (pair, lease)

def leaseMap (rows : List LeaseRow) : Dict (PublicKey × String) (Int × EndpointHash) :=
  rows.foldl (fun leases row => leases.insert row.1 row.2) ∅

def WakeRequest.resolve (leases : Dict (PublicKey × String) (Int × EndpointHash)) (r : WakeRequest) :
    Option EndpointHash :=
  ((leases.lookup (r.author, r.installation)).filter fun lease => lease.1 = r.leaseGeneration).map
    Prod.snd

abbrev Drawn := WakeRequest × Uuid

def insertRows (resolve : WakeRequest → Option EndpointHash) (requests : List Drawn) :
    List ((WakeRequest × EndpointHash) × Uuid) :=
  requests.filterMap fun (r, id) => (resolve r).map fun endpoint => ((r, endpoint), id)

def jobIds (community : CommunityId) (keys : List JobKey) (inserted table : List Wake) :
    Dict JobKey Uuid :=
  let ids := inserted.foldl (fun (ids : Dict JobKey Uuid) w => ids.insert w.job w.id) ∅
  if (inserted.map Wake.job).dedup.length < keys.length then
    (table.filter fun w => w.community = community ∧ w.job ∈ keys).foldl
      (fun ids w => if (ids.lookup w.job).isSome then ids else ids.insert w.job w.id) ids
  else ids

def report (ids : Dict JobKey Uuid) (inserted : List JobKey) :
    List (WakeRequest × Option EndpointHash) → List JobKey →
      Except InvalidData (List EnqueueWakeOutcome)
  | [], _ => .ok []
  | (_, none) :: rest, reported => (report ids inserted rest reported).map (.inactiveLease :: ·)
  | (r, some endpoint) :: rest, reported =>
    match ids.lookup (endpoint, r.eventId) with
    | none => .error ⟨"wake enqueue resolved neither insert nor duplicate"⟩
    | some id =>
      if (endpoint, r.eventId) ∈ inserted ∧ (endpoint, r.eventId) ∉ reported then
        (report ids inserted rest ((endpoint, r.eventId) :: reported)).map (.enqueued id :: ·)
      else (report ids inserted rest reported).map (.duplicate id :: ·)

def Db.enqueueWakes (db : Db) (community : CommunityId) (now : Int) (requests : List Drawn) :
    Except InvalidData (List EnqueueWakeOutcome) × Db :=
  if requests = [] then (.ok [], db)
  else
    let leases := leaseMap (db.leaseRows community now (requests.map Prod.fst))
    let rows := insertRows (WakeRequest.resolve leases) requests
    let inserted := newWakes community now db.outbox (rows.map Prod.fst) (rows.map Prod.snd)
    let table := db.outbox ++ inserted
    let ids := jobIds community (rows.map fun row => (row.1.2, row.1.1.eventId)) inserted table
    (report ids (inserted.map Wake.job) (requests.map fun d => (d.1, d.1.resolve leases)) [],
      { db with outbox := table })

def Db.enqueueWake (db : Db) (community : CommunityId) (now : Int) (d : Drawn) :
    Except InvalidData EnqueueWakeOutcome × Db :=
  let (outcomes, db') := db.enqueueWakes community now [d]
  (outcomes.bind fun
    | outcome :: _ => .ok outcome
    | [] => .error ⟨"missing wake enqueue outcome"⟩, db')

def Db.enqueueInTurn (db : Db) (community : CommunityId) (now : Int) :
    List Drawn → List (Except InvalidData EnqueueWakeOutcome) × Db
  | [] => ([], db)
  | d :: ds =>
    let (outcome, db') := db.enqueueWake community now d
    let (outcomes, db'') := Db.enqueueInTurn db' community now ds
    (outcome :: outcomes, db'')

theorem lookup_foldl_insert {K V : Type} [DecidableEq K] (f : K → Option V) (ks : List K)
    (m : Dict K V) (k : K) :
    ((ks.filterMap fun k => (f k).map fun v => (k, v)).foldl
      (fun (m : Dict K V) row => m.insert row.1 row.2) m).lookup k =
      if k ∈ ks ∧ (f k).isSome then f k else m.lookup k := by
  induction ks generalizing m with
  | nil => simp
  | cons k' ks ih =>
    cases hf : f k' with
    | none =>
      rw [List.filterMap_cons_none (by rw [hf]; rfl), ih]
      by_cases hk : k = k'
      · simp [hk, hf]
      · simp [hk]
    | some v =>
      rw [List.filterMap_cons_some (by rw [hf]; rfl), List.foldl_cons, ih, Dict.lookup_insert_if]
      by_cases hk : k = k'
      · simp [hk, hf]
      · simp [hk]

theorem resolve_leaseMap (db : Db) (community : CommunityId) (now : Int)
    {requests : List WakeRequest} {r : WakeRequest} (hr : r ∈ requests) :
    r.resolve (leaseMap (db.leaseRows community now requests)) = db.resolve community now r := by
  have hmem : (r.author, r.installation) ∈
      (requests.map fun r => (r.author, r.installation)).dedup :=
    List.mem_dedup.2 (List.mem_map_of_mem hr)
  have hlookup : (leaseMap (db.leaseRows community now requests)).lookup (r.author, r.installation) =
      db.currentLease community now (r.author, r.installation) := by
    rw [leaseMap, Db.leaseRows, lookup_foldl_insert]
    split_ifs with h
    · rfl
    · simp only [hmem, true_and, Bool.not_eq_true, Option.isSome_eq_false_iff, Option.isNone_iff_eq_none]
        at h
      rw [h]
      rfl
  rw [WakeRequest.resolve, hlookup, Db.currentLease, Db.resolve, WakeRequest.address]
  cases db.leases.lookup ⟨community, r.author, r.installation⟩ with
  | none => rfl
  | some l =>
    simp only [Option.bind_some]
    cases l.active <;> split_ifs <;> simp_all [Option.filter]

section Insert

variable {community : CommunityId} {now : Int} {outbox : List Wake}

def findJob (community : CommunityId) (table : List Wake) (job : JobKey) : Option Wake :=
  table.find? fun w => w.community = community ∧ w.job = job

theorem key_eq_iff {w : Wake} {endpoint : EndpointHash} {event : EventId} :
    w.key = (community, endpoint, event) ↔ w.community = community ∧ w.job = (endpoint, event) := by
  simp [Wake.key, Wake.job, Prod.ext_iff]

theorem findJob_eq_none {job : JobKey} :
    findJob community outbox job = none ↔ ∀ w ∈ outbox, w.community = community → w.job ≠ job := by
  simp [findJob]

@[simp] theorem findJob_append (table table' : List Wake) (job : JobKey) :
    findJob community (table ++ table') job =
      (findJob community table job).or (findJob community table' job) := List.find?_append

theorem any_key_iff {endpoint : EndpointHash} {event : EventId} :
    (outbox.any fun w => w.key = (community, endpoint, event)) = true ↔
      (findJob community outbox (endpoint, event)).isSome := by
  simp [findJob, key_eq_iff, List.find?_isSome]

def addWake (community : CommunityId) (now : Int) (outbox : List Wake)
    (row : (WakeRequest × EndpointHash) × Uuid) : List Wake :=
  if (findJob community outbox (row.1.2, row.1.1.eventId)).isSome then outbox
  else outbox ++ [newWake community now row.1.1 row.1.2 row.2]

theorem newWakes_cons (row : (WakeRequest × EndpointHash) × Uuid)
    (rows : List ((WakeRequest × EndpointHash) × Uuid)) :
    newWakes community now outbox ((row :: rows).map Prod.fst) ((row :: rows).map Prod.snd) =
      if (findJob community outbox (row.1.2, row.1.1.eventId)).isSome then
        newWakes community now outbox (rows.map Prod.fst) (rows.map Prod.snd)
      else newWake community now row.1.1 row.1.2 row.2 ::
        newWakes community now (addWake community now outbox row) (rows.map Prod.fst)
          (rows.map Prod.snd) := by
  obtain ⟨⟨r, endpoint⟩, id⟩ := row
  simp only [List.map_cons, newWakes, any_key_iff, addWake]
  split_ifs <;> rfl

/-- The rows that are added are of the community, have keys of their own that the table did not
have, and with the table cover all that was to be added; they are fewer if the table had one. -/
structure Inserts (community : CommunityId) (outbox : List Wake) (jobs : List JobKey)
    (inserted : List Wake) : Prop where
  tenant : ∀ w ∈ inserted, w.community = community
  nodup : (inserted.map Wake.job).Nodup
  fresh : ∀ w ∈ inserted, findJob community outbox w.job = none
  covered : ∀ job ∈ jobs, findJob community outbox job = none → job ∈ inserted.map Wake.job
  length : inserted.length ≤ jobs.length
  fewer : ∀ job ∈ jobs, (findJob community outbox job).isSome → inserted.length < jobs.length

theorem inserts_newWakes (rows : List ((WakeRequest × EndpointHash) × Uuid)) :
    Inserts community outbox (rows.map fun row => (row.1.2, row.1.1.eventId))
      (newWakes community now outbox (rows.map Prod.fst) (rows.map Prod.snd)) := by
  induction rows generalizing outbox with
  | nil => exact ⟨by simp [newWakes], by simp [newWakes], by simp [newWakes], by simp, by simp [newWakes], by simp⟩
  | cons row rows ih =>
    rw [newWakes_cons, List.map_cons]
    split_ifs with hfound
    · have h := @ih outbox
      refine ⟨h.tenant, h.nodup, h.fresh, ?_, Nat.le_succ_of_le h.length,
        fun _ _ _ => Nat.lt_succ_of_le h.length⟩
      intro job hjob hnone
      rcases List.mem_cons.1 hjob with rfl | hjob
      · rw [hnone] at hfound
        cases hfound
      · exact h.covered job hjob hnone
    · set w := newWake community now row.1.1 row.1.2 row.2 with hw
      have hjob : w.job = (row.1.2, row.1.1.eventId) := rfl
      have hadd : addWake community now outbox row = outbox ++ [w] := by rw [addWake, if_neg hfound]
      rw [hadd]
      have hnone : findJob community outbox w.job = none := by simpa [hjob] using hfound
      have hafter (job : JobKey) : findJob community (outbox ++ [w]) job = none ↔
          findJob community outbox job = none ∧ job ≠ w.job := by
        rw [findJob_append, Option.or_eq_none_iff]
        refine and_congr_right fun _ => ?_
        rw [findJob_eq_none]
        simp [hw, newWake, eq_comm]
      have h := @ih (outbox ++ [w])
      refine ⟨?_, ?_, ?_, ?_, ?_, ?_⟩
      · exact List.forall_mem_cons.2 ⟨rfl, h.tenant⟩
      · rw [List.map_cons, List.nodup_cons]
        refine ⟨fun hmem => ?_, h.nodup⟩
        obtain ⟨w', hw', heq⟩ := List.mem_map.1 hmem
        exact ((hafter _).1 (h.fresh w' hw')).2 heq
      · exact List.forall_mem_cons.2 ⟨hnone, fun w' hw' => ((hafter _).1 (h.fresh w' hw')).1⟩
      · intro job hmem hjobnone
        by_cases heq : job = w.job
        · simp [heq]
        · refine List.mem_cons_of_mem _ (h.covered job ?_ ((hafter job).2 ⟨hjobnone, heq⟩))
          exact (List.mem_cons.1 hmem).resolve_left heq
      · exact Nat.succ_le_succ h.length
      · intro job hmem hsome
        refine Nat.succ_lt_succ (h.fewer job ?_ ?_)
        · refine (List.mem_cons.1 hmem).resolve_left fun heq => ?_
          rw [heq, ← hjob, hnone] at hsome
          cases hsome
        · rw [findJob_append]
          exact Option.isSome_or.trans (by rw [hsome]; rfl)

theorem lookup_insertIds {inserted : List Wake} (hnodup : (inserted.map Wake.job).Nodup)
    (ids : Dict JobKey Uuid) (job : JobKey) :
    (inserted.foldl (fun (ids : Dict JobKey Uuid) w => ids.insert w.job w.id) ids).lookup job =
      ((inserted.find? fun w => w.job = job).map Wake.id).or (ids.lookup job) := by
  induction inserted generalizing ids with
  | nil => simp
  | cons w inserted ih =>
    rw [List.map_cons, List.nodup_cons] at hnodup
    rw [List.foldl_cons, ih hnodup.2, Dict.lookup_insert_if, List.find?_cons]
    by_cases h : job = w.job
    · have hnone : inserted.find? (fun w' => w'.job = job) = none := by
        rw [List.find?_eq_none]
        intro w' hw' heq
        exact hnodup.1 (h ▸ of_decide_eq_true heq ▸ List.mem_map_of_mem hw')
      rw [hnone, if_pos h]
      simp [h]
    · simp [h, Ne.symm h]

theorem lookup_orInsertIds (rows : List Wake) (ids : Dict JobKey Uuid) (job : JobKey) :
    (rows.foldl (fun (ids : Dict JobKey Uuid) w =>
      if (ids.lookup w.job).isSome then ids else ids.insert w.job w.id) ids).lookup job =
      (ids.lookup job).or ((rows.find? fun w => w.job = job).map Wake.id) := by
  induction rows generalizing ids with
  | nil => simp
  | cons w rows ih =>
    rw [List.foldl_cons, ih, List.find?_cons]
    by_cases h : w.job = job
    · subst h
      cases hids : ids.lookup w.job <;> simp [hids]
    · split_ifs
      · simp [h]
      · simp [h, Ne.symm h]

theorem lookup_jobIds {jobs : List JobKey} {inserted : List Wake}
    (h : Inserts community outbox jobs inserted) {job : JobKey} (hjob : job ∈ jobs) :
    (jobIds community jobs inserted (outbox ++ inserted)).lookup job =
      (findJob community (outbox ++ inserted) job).map Wake.id := by
  have hinserted : inserted.find? (fun w => w.job = job) = findJob community inserted job := by
    refine List.find?_congr fun w hw => ?_
    simp [h.tenant w hw]
  have hrows : ((outbox ++ inserted).filter fun w => w.community = community ∧ w.job ∈ jobs).find?
      (fun w => w.job = job) = findJob community (outbox ++ inserted) job := by
    rw [List.find?_filter, findJob]
    refine List.find?_congr fun w _ => ?_
    by_cases hw : w.job = job
    · simp [hw, hjob]
    · simp [hw]
  rw [jobIds, List.dedup_eq_self.2 h.nodup, List.length_map]
  cases hold : findJob community outbox job with
  | some w =>
    -- The table had the job, so fewer rows were inserted and the second statement finds it.
    have hnone : findJob community inserted job = none := by
      rw [findJob_eq_none]
      rintro w' hw' - rfl
      rw [h.fresh w' hw'] at hold
      cases hold
    rw [if_pos (h.fewer job hjob (by rw [hold]; rfl)), lookup_orInsertIds, lookup_insertIds h.nodup,
      hinserted, hrows, hnone]
    simp
  | none =>
    obtain ⟨w, hw, heq⟩ := List.mem_map.1 (h.covered job hjob hold)
    obtain ⟨w', hw'⟩ : ∃ w', findJob community inserted job = some w' := by
      refine Option.isSome_iff_exists.1 (Option.isSome_iff_ne_none.2 fun hnone => ?_)
      exact findJob_eq_none.1 hnone w hw (h.tenant w hw) heq
    split_ifs
    · rw [lookup_orInsertIds, lookup_insertIds h.nodup, hinserted, findJob_append, hold, hw']
      simp
    · rw [lookup_insertIds h.nodup, hinserted, findJob_append, hold, hw']
      simp

end Insert

section Turns

variable (resolve : WakeRequest → Option EndpointHash) (community : CommunityId) (now : Int)

def turn (outbox : List Wake) (d : Drawn) : EnqueueWakeOutcome × List Wake :=
  match resolve d.1 with
  | none => (.inactiveLease, outbox)
  | some endpoint =>
    match findJob community outbox (endpoint, d.1.eventId) with
    | some w => (.duplicate w.id, outbox)
    | none => (.enqueued d.2, outbox ++ [newWake community now d.1 endpoint d.2])

def turns (outbox : List Wake) : List Drawn → List EnqueueWakeOutcome × List Wake
  | [] => ([], outbox)
  | d :: ds =>
    let rest := turns (turn resolve community now outbox d).2 ds
    ((turn resolve community now outbox d).1 :: rest.1, rest.2)

variable {resolve community now}

theorem newWakes_turns (requests : List Drawn) (outbox : List Wake) :
    outbox ++ newWakes community now outbox ((insertRows resolve requests).map Prod.fst)
      ((insertRows resolve requests).map Prod.snd) = (turns resolve community now outbox requests).2 := by
  induction requests generalizing outbox with
  | nil => simp [insertRows, newWakes, turns]
  | cons d requests ih =>
    obtain ⟨r, id⟩ := d
    cases hr : resolve r with
    | none =>
      have hrows : insertRows resolve ((r, id) :: requests) = insertRows resolve requests :=
        List.filterMap_cons_none (by simp [hr])
      rw [hrows, turns, turn, hr]
      exact ih outbox
    | some endpoint =>
      have hrows : insertRows resolve ((r, id) :: requests) =
          ((r, endpoint), id) :: insertRows resolve requests :=
        List.filterMap_cons_some (by simp [hr])
      rw [hrows, newWakes_cons, turns, turn, hr]
      cases hfind : findJob community outbox (endpoint, r.eventId) with
      | some w => simpa [hfind] using ih outbox
      | none => simpa [hfind, addWake] using ih (outbox ++ [newWake community now r endpoint id])

theorem findJob_turns {outbox : List Wake} {job : JobKey} {w : Wake}
    (h : findJob community outbox job = some w) (requests : List Drawn) :
    findJob community (turns resolve community now outbox requests).2 job = some w := by
  rw [← newWakes_turns, findJob_append, h, Option.some_or]

theorem report_turns {ids : Dict JobKey Uuid} {inserted : List JobKey} (requests : List Drawn)
    (outbox : List Wake) (reported : List JobKey)
    (hids : ∀ d ∈ requests, ∀ endpoint, resolve d.1 = some endpoint →
      ids.lookup (endpoint, d.1.eventId) =
        (findJob community (turns resolve community now outbox requests).2
          (endpoint, d.1.eventId)).map Wake.id)
    (hkeys : ∀ d ∈ requests, ∀ endpoint, resolve d.1 = some endpoint →
      ((endpoint, d.1.eventId) ∈ inserted ∧ (endpoint, d.1.eventId) ∉ reported ↔
        findJob community outbox (endpoint, d.1.eventId) = none)) :
    report ids inserted (requests.map fun d => (d.1, resolve d.1)) reported =
      .ok (turns resolve community now outbox requests).1 := by
  induction requests generalizing outbox reported with
  | nil => rfl
  | cons d requests ih =>
    obtain ⟨r, id⟩ := d
    obtain ⟨hid, hids⟩ := List.forall_mem_cons.1 hids
    obtain ⟨hkey, hkeys⟩ := List.forall_mem_cons.1 hkeys
    cases hr : resolve r with
    | none =>
      have hturn : turn resolve community now outbox (r, id) = (.inactiveLease, outbox) := by
        simp [turn, hr]
      simp only [turns, hturn] at hids ⊢
      rw [List.map_cons, hr, report, ih outbox reported hids hkeys]
      rfl
    | some endpoint =>
      have hid := hid endpoint hr
      have hkey := hkey endpoint hr
      cases hfind : findJob community outbox (endpoint, r.eventId) with
      | some w =>
        have hturn : turn resolve community now outbox (r, id) = (.duplicate w.id, outbox) := by
          simp [turn, hr, hfind]
        simp only [turns, hturn] at hids hid ⊢
        rw [findJob_turns hfind, Option.map_some] at hid
        rw [hfind] at hkey
        have hskip := mt hkey.1 (by simp)
        simp only [List.map_cons, hr, report, hid, if_neg hskip]
        rw [ih outbox reported hids hkeys]
        rfl
      | none =>
        set w := newWake community now r endpoint id with hw
        have hturn : turn resolve community now outbox (r, id) = (.enqueued id, outbox ++ [w]) := by
          simp [turn, hr, hfind, hw]
        have hfound : findJob community (outbox ++ [w]) (endpoint, r.eventId) = some w := by
          rw [findJob_append, hfind]
          simp [findJob, hw, newWake, Wake.job]
        simp only [turns, hturn] at hids hid ⊢
        rw [findJob_turns hfound, Option.map_some] at hid
        simp only [List.map_cons, hr, report, hid, if_pos (hkey.2 hfind)]
        rw [ih (outbox ++ [w]) ((endpoint, r.eventId) :: reported) hids]
        · rfl
        · intro d hd endpoint' hr'
          by_cases hsame : (endpoint', d.1.eventId) = (endpoint, r.eventId)
          · simp [hsame, hfound]
          · rw [findJob_append, Option.or_eq_none_iff, ← hkeys d hd endpoint' hr']
            have hother : findJob community [w] (endpoint', d.1.eventId) = none := by
              rw [findJob_eq_none]
              intro w' hw' _
              rw [List.mem_singleton.1 hw']
              exact Ne.symm hsame
            simp [hsame, hother]

end Turns

section Batch

variable (db : Db) (community : CommunityId) (now : Int)

theorem enqueueWakes_eq (requests : List Drawn) :
    db.enqueueWakes community now requests =
      (.ok (turns (db.resolve community now) community now db.outbox requests).1,
        { db with outbox := (turns (db.resolve community now) community now db.outbox requests).2 }) := by
  by_cases hempty : requests = []
  · subst hempty
    rfl
  set leases := leaseMap (db.leaseRows community now (requests.map Prod.fst)) with hleases
  have hresolve : ∀ d ∈ requests, d.1.resolve leases = db.resolve community now d.1 := fun d hd =>
    resolve_leaseMap db community now (List.mem_map_of_mem hd)
  have hrows : insertRows (WakeRequest.resolve leases) requests =
      insertRows (db.resolve community now) requests := by
    refine List.filterMap_congr fun d hd => ?_
    simp only [hresolve d hd]
  have hreport : (requests.map fun d => (d.1, d.1.resolve leases)) =
      requests.map fun d => (d.1, db.resolve community now d.1) := by
    refine List.map_congr_left fun d hd => ?_
    rw [hresolve d hd]
  rw [Db.enqueueWakes, if_neg hempty]
  simp only [← hleases, hrows, hreport]
  set rows := insertRows (db.resolve community now) requests with hrowsEq
  set inserted := newWakes community now db.outbox (rows.map Prod.fst) (rows.map Prod.snd) with hinserted
  have hinserts : Inserts community db.outbox (rows.map fun row => (row.1.2, row.1.1.eventId)) inserted :=
    inserts_newWakes rows
  have htable : db.outbox ++ inserted =
      (turns (db.resolve community now) community now db.outbox requests).2 := newWakes_turns requests _
  have hjob : ∀ d ∈ requests, ∀ endpoint, db.resolve community now d.1 = some endpoint →
      (endpoint, d.1.eventId) ∈ rows.map fun row => (row.1.2, row.1.1.eventId) := by
    intro d hd endpoint hr
    refine List.mem_map.2 ⟨((d.1, endpoint), d.2), List.mem_filterMap.2 ⟨d, hd, ?_⟩, rfl⟩
    simp [hr]
  refine Prod.ext ?_ (by rw [htable])
  refine report_turns requests db.outbox [] (fun d hd endpoint hr => ?_) (fun d hd endpoint hr => ?_)
  · rw [lookup_jobIds hinserts (hjob d hd endpoint hr), htable]
  · constructor
    · rintro ⟨hmem, -⟩
      obtain ⟨w, hw, heq⟩ := List.mem_map.1 hmem
      exact heq ▸ hinserts.fresh w hw
    · exact fun hnone => ⟨hinserts.covered _ (hjob d hd endpoint hr) hnone, by simp⟩

theorem enqueueWake_eq (d : Drawn) :
    db.enqueueWake community now d =
      (.ok (turn (db.resolve community now) community now db.outbox d).1,
        { db with outbox := (turn (db.resolve community now) community now db.outbox d).2 }) := by
  rw [Db.enqueueWake, enqueueWakes_eq]
  rfl

/-- A batch has the outcomes and leaves the rows of its requests made one after another. -/
theorem enqueueWakes_inTurn (requests : List Drawn) : ∃ outcomes after,
    db.enqueueWakes community now requests = (.ok outcomes, after) ∧
      db.enqueueInTurn community now requests = (outcomes.map .ok, after) := by
  refine ⟨_, _, enqueueWakes_eq db community now requests, ?_⟩
  induction requests generalizing db with
  | nil => rfl
  | cons d requests ih =>
    rw [Db.enqueueInTurn, enqueueWake_eq]
    simp only [ih, turns]
    rfl

end Batch

end Colony.Push
