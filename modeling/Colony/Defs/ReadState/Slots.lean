import Colony.Defs.ReadState.Json
import Mathlib.Data.List.Sort
import Mathlib.Data.List.Dedup

namespace Colony.ReadState

open Colony.Core Colony.Data

variable (N : Numbers) (clientId : JsString)

def sortOldest (entries : Contexts) : Contexts := entries.insertionSort fun a b => a.2 ≤ b.2

def evictionOrder (contexts : Contexts) : Contexts :=
  sortOldest (contexts.filter fun e => isMsg e.1) ++
    sortOldest (contexts.filter fun e => !isMsg e.1 && isThread e.1)

/-- What an entry is taken to contribute: its units and digits, the marks, the colon and a comma. -/
def estimate (e : JsString × Nat) : Nat := e.1.length + 3 + (N.text e.2).length + 1

def toEvict (maxBytes : Int) : Int → Contexts → List JsString
  | _, [] => []
  | currentBytes, e :: rest =>
    if currentBytes ≤ maxBytes then [] else e.1 :: toEvict maxBytes (currentBytes - estimate N e) rest

structure TrimResult where
  evicted : Nat
  fitsAfterTrim : Bool

def trimContextsToBudget (contexts : Contexts) (maxBytes : Int) : TrimResult × Contexts :=
  if blobBytes N clientId contexts ≤ maxBytes then (⟨0, true⟩, contexts)
  else
    let evict := toEvict N maxBytes (blobBytes N clientId contexts) (evictionOrder contexts)
    let trimmed := evict.foldl Contexts.delete contexts
    (⟨evict.length, blobBytes N clientId trimmed ≤ maxBytes⟩, trimmed)

def distribute (channelEntries : Contexts) (count : Nat) : List Contexts :=
  channelEntries.zipIdx.foldl
    (fun slots e => slots.modify (e.2 % count) fun c => c.assign e.1.1 e.1.2)
    (List.replicate count [])

def oversized (maxBytes : Int) (slots : List Contexts) : Bool :=
  slots.any fun c => maxBytes < blobBytes N clientId c

theorem oversized_iff {maxBytes : Int} {slots : List Contexts} :
    oversized N clientId maxBytes slots = true ↔ ∃ c ∈ slots, maxBytes < blobBytes N clientId c := by
  simp only [oversized, List.any_eq_true, decide_eq_true_eq]

/-- The slot count grows, with an id drawn each time, while the entries do not fit and there is
room below the limit. -/
def growSlots (tooBig : Nat → Bool) (slotIdGenerator : Nat → JsString) :
    (room slotCount : Nat) → List JsString → Nat × List JsString
  | 0, slotCount, ids => (slotCount, ids)
  | room + 1, slotCount, ids =>
    if tooBig slotCount then
      growSlots tooBig slotIdGenerator room (slotCount + 1) (ids ++ [slotIdGenerator ids.length])
    else (slotCount, ids)

structure SlotSplitResult where
  slots : List Contexts
  extraSlotIds : List JsString

/-- The primary slot: the entries of threads and messages are added and it is trimmed. -/
def fillPrimary (threadMsgEntries : Contexts) (maxBytes : Int) (primary : Contexts) : Contexts :=
  (trimContextsToBudget N clientId
    (threadMsgEntries.foldl (fun c e => c.assign e.1 e.2) primary) maxBytes).2

def splitContextsIntoBudgetedSlots (channelEntries threadMsgEntries : Contexts)
    (initialSlotCount : Nat) (maxSlots maxBytes : Int) (slotIdGenerator : Nat → JsString) :
    Option SlotSplitResult :=
  let tooBig count := oversized N clientId maxBytes (distribute channelEntries count)
  let grown := growSlots tooBig slotIdGenerator (maxSlots - initialSlotCount).toNat initialSlotCount []
  if tooBig grown.1 then none
  else some {
    slots := (distribute channelEntries grown.1).modify 0 (fillPrimary N clientId threadMsgEntries maxBytes)
    extraSlotIds := grown.2 }

namespace Contexts

variable {c : Contexts}

theorem assign_of_not_mem {key : JsString} {ts : Nat} (hkey : key ∉ c.keys) (hproto : key ≠ proto) :
    c.assign key ts = c ++ [(key, ts)] := by
  rw [assign, if_neg hproto, set, if_neg hkey]

@[simp] theorem keys_append (c c' : Contexts) : keys (c ++ c') = keys c ++ keys c' := List.map_append

theorem foldl_assign {entries : Contexts} (hnodup : (keys (c ++ entries)).Nodup)
    (hproto : proto ∉ entries.keys) :
    entries.foldl (fun c e => c.assign e.1 e.2) c = c ++ entries := by
  induction entries generalizing c with
  | nil => simp
  | cons e entries ih =>
    obtain ⟨hhead, htail⟩ := not_or.1 (fun h => hproto (List.mem_cons.2 h))
    have hassoc : c ++ e :: entries = (c ++ [e]) ++ entries := by simp
    have hkey : e.1 ∉ c.keys := by
      intro h
      rw [keys_append] at hnodup
      exact List.disjoint_of_nodup_append hnodup h (by simp [keys])
    rw [List.foldl_cons, assign_of_not_mem hkey (Ne.symm hhead), hassoc]
    exact ih (hassoc ▸ hnodup) htail

theorem foldl_delete (evicted : List JsString) :
    evicted.foldl delete c = c.filter fun e => e.1 ∉ evicted := by
  induction evicted generalizing c with
  | nil => simp
  | cons key evicted ih =>
    rw [List.foldl_cons, ih, delete, List.filter_filter]
    refine List.filter_congr fun e _ => ?_
    simp [not_or, Bool.and_comm]

end Contexts

open Contexts

def share (channelEntries : Contexts) (count j : Nat) : Contexts :=
  (channelEntries.zipIdx.filter fun e => e.2 % count = j).map Prod.fst

@[simp] theorem length_distribute (channelEntries : Contexts) (count : Nat) :
    (distribute channelEntries count).length = count := by
  have h (l : List ((JsString × Nat) × Nat)) (slots : List Contexts) :
      (l.foldl (fun slots e => slots.modify (e.2 % count) fun c => c.assign e.1.1 e.1.2) slots).length =
        slots.length := by
    induction l generalizing slots with
    | nil => rfl
    | cons e l ih => rw [List.foldl_cons, ih, List.length_modify]
  rw [distribute, h, List.length_replicate]

theorem share_concat (channelEntries : Contexts) (e : JsString × Nat) (count j : Nat) :
    share (channelEntries ++ [e]) count j =
      if channelEntries.length % count = j then share channelEntries count j ++ [e]
      else share channelEntries count j := by
  unfold share
  rw [List.zipIdx_append, List.filter_append, List.map_append]
  by_cases h : channelEntries.length % count = j <;> simp [h]

theorem mem_share {channelEntries : Contexts} {count j : Nat} {e : JsString × Nat} :
    e ∈ share channelEntries count j ↔ ∃ i, channelEntries[i]? = some e ∧ i % count = j := by
  simp only [share, List.mem_map, List.mem_filter, decide_eq_true_eq, Prod.exists, exists_and_right,
    exists_eq_right, List.mem_zipIdx_iff_getElem?]

theorem distribute_getElem? {channelEntries : Contexts} (hnodup : channelEntries.keys.Nodup)
    (hproto : proto ∉ channelEntries.keys) {count j : Nat} (hj : j < count) :
    (distribute channelEntries count)[j]? = some (share channelEntries count j) := by
  induction channelEntries using List.reverseRecOn with
  | nil => simp [distribute, share, hj]
  | append_singleton channelEntries e ih =>
    rw [keys_append] at hnodup hproto
    have hold : (Contexts.keys channelEntries).Nodup := (List.nodup_append.1 hnodup).1
    have hkey : e.1 ∉ Contexts.keys channelEntries := fun h =>
      List.disjoint_of_nodup_append hnodup h (by simp [keys])
    have hne : e.1 ≠ proto := fun h => hproto (List.mem_append_right _ (by simp [keys, h]))
    have ih := ih hold fun h => hproto (List.mem_append_left _ h)
    unfold distribute at ih ⊢
    rw [List.zipIdx_append, List.foldl_append, share_concat]
    simp only [List.zipIdx_singleton, List.foldl_cons, List.foldl_nil, Nat.zero_add,
      List.getElem?_modify, ih, Option.map_eq_map, Option.map_some]
    split_ifs
    · rw [assign_of_not_mem (fun h => ?_) hne]
      obtain ⟨e', he', heq⟩ := List.mem_map.1 h
      obtain ⟨i, hi, -⟩ := mem_share.1 he'
      exact hkey (heq ▸ List.mem_map_of_mem (List.mem_of_getElem? hi))
    · rfl

/-- Every count before the last was too small, and the last is the limit if it is too. -/
structure Grown (tooBig : Nat → Bool) (room slotCount drawn : Nat) (grown : Nat × List JsString) :
    Prop where
  le : slotCount ≤ grown.1
  limit : grown.1 ≤ slotCount + room
  ids : grown.2.length = drawn + (grown.1 - slotCount)
  earlier : ∀ m, slotCount ≤ m → m < grown.1 → tooBig m = true
  last : tooBig grown.1 = true → grown.1 = slotCount + room

theorem grown_growSlots (tooBig : Nat → Bool) (slotIdGenerator : Nat → JsString)
    (room slotCount : Nat) (ids : List JsString) :
    Grown tooBig room slotCount ids.length (growSlots tooBig slotIdGenerator room slotCount ids) := by
  induction room generalizing slotCount ids with
  | zero =>
    exact ⟨le_rfl, le_rfl, (Nat.sub_self slotCount).symm ▸ rfl,
      fun m h h' => absurd h' (Nat.not_lt.2 h), fun _ => rfl⟩
  | succ room ih =>
    rw [growSlots]
    split
    next hbig =>
      have h := ih (slotCount + 1) (ids ++ [slotIdGenerator ids.length])
      have hle := h.le
      refine ⟨by omega, by have := h.limit; omega, ?_, fun m hm hmn => ?_, fun hn => ?_⟩
      · rw [h.ids, List.length_append, List.length_singleton]
        omega
      · rcases Nat.eq_or_lt_of_le hm with rfl | hm
        · exact hbig
        · exact h.earlier m hm hmn
      · rw [h.last hn]
        omega
    next hfits =>
      exact ⟨le_rfl, by simp, by simp, fun m h h' => absurd h' (Nat.not_lt.2 h), fun hn => absurd hn hfits⟩

theorem toEvict_eq_take (maxBytes currentBytes : Int) (order : Contexts) :
    ∃ n ≤ order.length, toEvict N maxBytes currentBytes order = keys (order.take n) ∧
      (n < order.length → currentBytes - ((order.take n).map (estimate N)).sum ≤ maxBytes) := by
  induction order generalizing currentBytes with
  | nil => exact ⟨0, le_rfl, rfl, fun h => absurd h (lt_irrefl 0)⟩
  | cons e order ih =>
    rw [toEvict]
    split
    next hfits => exact ⟨0, Nat.zero_le _, rfl, fun _ => by simpa using hfits⟩
    next =>
      obtain ⟨n, hn, heq, hstop⟩ := ih (currentBytes - estimate N e)
      refine ⟨n + 1, Nat.succ_le_succ hn, by rw [heq]; rfl, fun h => ?_⟩
      have := hstop (Nat.lt_of_succ_lt_succ h)
      simp only [List.take_succ_cons, List.map_cons, List.sum_cons, Int.natCast_add]
      omega

theorem estimate_le (e : JsString × Nat) : estimate N e ≤ entryBytes N e + 1 := by
  have := length_le_quotedLength e.1
  simp only [estimate, entryBytes]
  omega

theorem sum_estimate_le (entries : Contexts) :
    (entries.map (estimate N)).sum ≤ (entries.map (entryBytes N)).sum + entries.length := by
  induction entries with
  | nil => simp
  | cons e entries ih =>
    have := estimate_le N e
    simp only [List.map_cons, List.sum_cons, List.length_cons]
    omega

section Trim

variable {base others : Contexts}

theorem evictionOrder_append (hbase : ∀ e ∈ base, isMsg e.1 = false ∧ isThread e.1 = false) :
    evictionOrder (base ++ others) = evictionOrder others := by
  have hmsg : (base.filter fun e => isMsg e.1) = [] :=
    List.filter_eq_nil_iff.2 fun e he => by simp [(hbase e he).1]
  have hthread : (base.filter fun e => !isMsg e.1 && isThread e.1) = [] :=
    List.filter_eq_nil_iff.2 fun e he => by simp [(hbase e he).2]
  simp [evictionOrder, hmsg, hthread]

theorem evictionOrder_perm (hothers : ∀ e ∈ others, isMsg e.1 = true ∨ isThread e.1 = true) :
    (evictionOrder others).Perm others := by
  have hthread : (others.filter fun e => !isMsg e.1 && isThread e.1) =
      others.filter fun e => !isMsg e.1 := by
    refine List.filter_congr fun e he => ?_
    rcases hothers e he with h | h <;> simp [h]
  rw [evictionOrder, hthread]
  exact ((List.perm_insertionSort _ _).append (List.perm_insertionSort _ _)).trans
    (List.filter_append_perm _ _)

theorem filter_not_mem_take {order : Contexts} (h : order.Perm others) (hnodup : (keys others).Nodup)
    (n : Nat) : (others.filter fun e => e.1 ∉ keys (order.take n)).Perm (order.drop n) := by
  have hkeys : (keys (order.take n ++ order.drop n)).Nodup := by
    rw [List.take_append_drop]
    exact (h.map Prod.fst).nodup_iff.2 hnodup
  rw [keys_append] at hkeys
  have htake : (order.take n).filter (fun e => e.1 ∉ keys (order.take n)) = [] := by
    refine List.filter_eq_nil_iff.2 fun e he h => ?_
    exact of_decide_eq_true h (List.mem_map_of_mem he)
  have hdrop : (order.drop n).filter (fun e => e.1 ∉ keys (order.take n)) = order.drop n := by
    refine List.filter_eq_self.2 fun e he => decide_eq_true fun hmem => ?_
    exact List.disjoint_of_nodup_append hkeys hmem (List.mem_map_of_mem he)
  have hfilter : order.filter (fun e => e.1 ∉ keys (order.take n)) = order.drop n := by
    have happend := List.filter_append (p := fun e => decide (e.1 ∉ keys (order.take n)))
      (order.take n) (order.drop n)
    rwa [List.take_append_drop, htake, hdrop, List.nil_append] at happend
  exact (h.symm.filter _).trans (List.Perm.of_eq hfilter)

theorem fillPrimary_spec {maxBytes : Int} (hnodup : (keys (base ++ others)).Nodup)
    (hbase : ∀ e ∈ base, isMsg e.1 = false ∧ isThread e.1 = false)
    (hothers : ∀ e ∈ others, isMsg e.1 = true ∨ isThread e.1 = true)
    (hfits : blobBytes N clientId base ≤ maxBytes) :
    ∃ n, fillPrimary N clientId others maxBytes base =
        base ++ others.filter (fun e => e.1 ∉ keys ((evictionOrder others).take n)) ∧
      blobBytes N clientId (fillPrimary N clientId others maxBytes base) ≤ maxBytes := by
  have hproto : proto ∉ keys others := by
    intro h
    obtain ⟨e, he, heq⟩ := List.mem_map.1 h
    have := hothers e he
    rw [heq] at this
    revert this
    decide
  rw [fillPrimary, foldl_assign hnodup hproto, trimContextsToBudget]
  split
  next hfit => exact ⟨0, by simp [keys], hfit⟩
  rw [evictionOrder_append hbase]
  set order := evictionOrder others with horder
  have hperm : order.Perm others := evictionOrder_perm hothers
  obtain ⟨n, hn, hevict, hstop⟩ := toEvict_eq_take N maxBytes (blobBytes N clientId (base ++ others)) order
  have hkeep : base.filter (fun e => e.1 ∉ keys (order.take n)) = base := by
    refine List.filter_eq_self.2 fun e he => decide_eq_true fun hmem => ?_
    obtain ⟨e', he', heq⟩ := List.mem_map.1 hmem
    have := hothers e' (hperm.subset (List.mem_of_mem_take he'))
    rw [heq, (hbase e he).1, (hbase e he).2] at this
    exact absurd this (by simp)
  simp only [hevict, foldl_delete, List.filter_append, hkeep]
  refine ⟨n, rfl, ?_⟩
  rw [keys_append] at hnodup
  have hrest := filter_not_mem_take hperm (List.nodup_append.1 hnodup).2.1 n
  obtain ⟨frame, hframe⟩ := blobBytes_eq N clientId
  rw [blobBytes_perm N clientId (hrest.append_left base)]
  rcases Nat.lt_or_ge n order.length with hlt | hge
  · have hest := sum_estimate_le N (order.take n)
    have hstop := hstop hlt
    have hsum : (order.map (entryBytes N)).sum =
        ((order.take n).map (entryBytes N)).sum + ((order.drop n).map (entryBytes N)).sum := by
      rw [← List.sum_append, ← List.map_append, List.take_append_drop]
    rw [blobBytes_perm N clientId (hperm.symm.append_left base), hframe] at hstop
    rw [hframe]
    simp only [List.map_append, List.sum_append, List.length_append, List.length_drop,
      List.length_take, hsum, min_eq_left hn] at hest hstop ⊢
    omega
  · rw [List.drop_eq_nil_of_le hge, List.append_nil]
    exact hfits

end Trim

section Split

variable {channelEntries threadMsgEntries : Contexts} {initialSlotCount : Nat}
  {maxSlots maxBytes : Int} {slotIdGenerator : Nat → JsString}

theorem split_eq_some {result : SlotSplitResult}
    (h : splitContextsIntoBudgetedSlots N clientId channelEntries threadMsgEntries initialSlotCount
      maxSlots maxBytes slotIdGenerator = some result) :
    ∃ count, initialSlotCount ≤ count ∧ (count : Int) ≤ max (initialSlotCount : Int) maxSlots ∧
      count = initialSlotCount + result.extraSlotIds.length ∧
      (∀ c ∈ distribute channelEntries count, blobBytes N clientId c ≤ maxBytes) ∧
      result.slots = (distribute channelEntries count).modify 0
        (fillPrimary N clientId threadMsgEntries maxBytes) := by
  unfold splitContextsIntoBudgetedSlots at h
  simp only [Option.ite_none_left_eq_some, Option.some.injEq] at h
  obtain ⟨hfits, rfl⟩ := h
  have hgrown := grown_growSlots
    (fun count => oversized N clientId maxBytes (distribute channelEntries count)) slotIdGenerator
    (maxSlots - initialSlotCount).toNat initialSlotCount []
  have hle := hgrown.le
  have hlimit := hgrown.limit
  have hids := hgrown.ids
  refine ⟨_, hle, ?_, ?_, ?_, rfl⟩
  · omega
  · dsimp only
    rw [hids, List.length_nil]
    omega
  · intro c hc
    refine Int.not_lt.1 fun hlt => hfits ?_
    exact (oversized_iff N clientId).2 ⟨c, hc, hlt⟩

theorem split_eq_none
    (h : splitContextsIntoBudgetedSlots N clientId channelEntries threadMsgEntries initialSlotCount
      maxSlots maxBytes slotIdGenerator = none) {count : Nat} (hmin : initialSlotCount ≤ count)
    (hmax : (count : Int) ≤ max (initialSlotCount : Int) maxSlots) :
    ∃ c ∈ distribute channelEntries count, maxBytes < blobBytes N clientId c := by
  unfold splitContextsIntoBudgetedSlots at h
  simp only [ite_eq_left_iff, reduceCtorEq, imp_false, not_not] at h
  have hgrown := grown_growSlots
    (fun count => oversized N clientId maxBytes (distribute channelEntries count)) slotIdGenerator
    (maxSlots - initialSlotCount).toNat initialSlotCount []
  have hlast := hgrown.last h
  have hbig : oversized N clientId maxBytes (distribute channelEntries count) = true := by
    rcases Nat.lt_or_ge count (initialSlotCount + (maxSlots - initialSlotCount).toNat) with hlt | hge
    · exact hgrown.earlier count hmin (hlast ▸ hlt)
    · have hcount : count = initialSlotCount + (maxSlots - initialSlotCount).toNat := by omega
      rw [hcount, ← hlast]
      exact h
  exact (oversized_iff N clientId).1 hbig

theorem mem_share_unique (hnodup : channelEntries.keys.Nodup) {e e' : JsString × Nat} {count j j' : Nat}
    (he : e ∈ share channelEntries count j) (he' : e' ∈ share channelEntries count j')
    (heq : e.1 = e'.1) : j = j' := by
  obtain ⟨i, hi, rfl⟩ := mem_share.1 he
  obtain ⟨i', hi', rfl⟩ := mem_share.1 he'
  have hkey : (keys channelEntries)[i]? = some e.1 := by simp [keys, hi]
  have hkey' : (keys channelEntries)[i']? = some e.1 := by simp [keys, hi', heq]
  have hlt : i < (keys channelEntries).length := by
    rw [keys, List.length_map]
    exact (List.getElem?_eq_some_iff.1 hi).1
  rw [(List.getElem?_inj hlt hnodup).1 (hkey.trans hkey'.symm)]

theorem slots_of_split {result : SlotSplitResult}
    (hnodup : (keys (channelEntries ++ threadMsgEntries)).Nodup)
    (hchannels : ∀ e ∈ channelEntries, isMsg e.1 = false ∧ isThread e.1 = false ∧ e.1 ≠ proto)
    (hothers : ∀ e ∈ threadMsgEntries, isMsg e.1 = true ∨ isThread e.1 = true)
    (hcount : 1 ≤ initialSlotCount)
    (h : splitContextsIntoBudgetedSlots N clientId channelEntries threadMsgEntries initialSlotCount
      maxSlots maxBytes slotIdGenerator = some result) :
    ∃ count n, 0 < count ∧ result.slots.length = count ∧
      count = initialSlotCount + result.extraSlotIds.length ∧
      (count : Int) ≤ max (initialSlotCount : Int) maxSlots ∧
      ∀ j, j < count → ∃ c, result.slots[j]? = some c ∧ blobBytes N clientId c ≤ maxBytes ∧
        c = share channelEntries count j ++ if j = 0 then threadMsgEntries.filter
          (fun e => e.1 ∉ keys ((evictionOrder threadMsgEntries).take n)) else [] := by
  obtain ⟨count, hmin, hmax, hids, hfits, hslots⟩ := split_eq_some N clientId h
  have hpos : 0 < count := by omega
  have hnodup' := hnodup
  rw [keys_append] at hnodup'
  have hkeys : channelEntries.keys.Nodup := (List.nodup_append.1 hnodup').1
  have hproto : proto ∉ channelEntries.keys := by
    intro hmem
    obtain ⟨e, he, heq⟩ := List.mem_map.1 hmem
    exact (hchannels e he).2.2 heq
  have hshare : ∀ j, j < count →
      (distribute channelEntries count)[j]? = some (share channelEntries count j) :=
    fun j hj => distribute_getElem? hkeys hproto hj
  have hsub : (share channelEntries count 0).Sublist channelEntries := by
    have hmap : channelEntries.zipIdx.map Prod.fst = channelEntries := by simp
    conv_rhs => rw [← hmap]
    exact List.filter_sublist.map Prod.fst
  obtain ⟨n, hfill, hbytes⟩ := fillPrimary_spec N clientId
    (((hsub.append_right threadMsgEntries).map Prod.fst).nodup hnodup)
    (fun e he => ⟨(hchannels e (hsub.subset he)).1, (hchannels e (hsub.subset he)).2.1⟩) hothers
    (hfits _ (List.mem_of_getElem? (hshare 0 hpos)))
  refine ⟨count, n, hpos, by rw [hslots, List.length_modify, length_distribute], hids, hmax, ?_⟩
  intro j hj
  rw [hslots, List.getElem?_modify, hshare j hj]
  by_cases hzero : j = 0
  · subst hzero
    exact ⟨_, rfl, hbytes, hfill⟩
  · rw [if_neg hzero, List.append_nil]
    exact ⟨_, by simp [Ne.symm hzero], hfits _ (List.mem_of_getElem? (hshare j hj)), rfl⟩

/-- A split that is returned has every slot within the budget, every channel in one slot, with its
timestamp, and in the primary slot all the other entries but the first of the order of eviction;
none is returned only if no count that is tried has room for the channels. -/
theorem split_within_budget (hnodup : (keys (channelEntries ++ threadMsgEntries)).Nodup)
    (hchannels : ∀ e ∈ channelEntries, isMsg e.1 = false ∧ isThread e.1 = false ∧ e.1 ≠ proto)
    (hothers : ∀ e ∈ threadMsgEntries, isMsg e.1 = true ∨ isThread e.1 = true)
    (hcount : 1 ≤ initialSlotCount) :
    (∀ result, splitContextsIntoBudgetedSlots N clientId channelEntries threadMsgEntries
        initialSlotCount maxSlots maxBytes slotIdGenerator = some result →
      (∀ c ∈ result.slots, blobBytes N clientId c ≤ maxBytes) ∧
      (∀ e ∈ channelEntries, ∃ i : Nat, ∃ c : Contexts, result.slots[i]? = some c ∧ e ∈ c ∧
        ∀ (j : Nat) (c' : Contexts), result.slots[j]? = some c' → e.1 ∈ keys c' → j = i) ∧
      result.slots.length = initialSlotCount + result.extraSlotIds.length ∧
      (result.slots.length : Int) ≤ max (initialSlotCount : Int) maxSlots ∧
      ∃ n, ∃ primary : Contexts, result.slots[0]? = some primary ∧ ∀ e ∈ threadMsgEntries,
        (e ∉ primary ↔ e ∈ (evictionOrder threadMsgEntries).take n)) ∧
    (splitContextsIntoBudgetedSlots N clientId channelEntries threadMsgEntries initialSlotCount
        maxSlots maxBytes slotIdGenerator = none →
      ∀ count, initialSlotCount ≤ count → (count : Int) ≤ max (initialSlotCount : Int) maxSlots →
        ∃ c ∈ distribute channelEntries count, maxBytes < blobBytes N clientId c) := by
  refine ⟨fun result h => ?_, fun h count hmin hmax => split_eq_none N clientId h hmin hmax⟩
  obtain ⟨count, n, hpos, hlength, hids, hmax, hslots⟩ :=
    slots_of_split N clientId hnodup hchannels hothers hcount h
  have hat : ∀ j c, result.slots[j]? = some c → j < count ∧ blobBytes N clientId c ≤ maxBytes ∧
      c = share channelEntries count j ++ if j = 0 then threadMsgEntries.filter
        (fun e => e.1 ∉ keys ((evictionOrder threadMsgEntries).take n)) else [] := by
    intro j c hc
    have hj : j < count := hlength ▸ (List.getElem?_eq_some_iff.1 hc).1
    obtain ⟨c', hc', hbytes, heq⟩ := hslots j hj
    obtain rfl : c = c' := Option.some.inj (hc.symm.trans hc')
    exact ⟨hj, hbytes, heq⟩
  rw [keys_append] at hnodup
  have hdisjoint := List.disjoint_of_nodup_append hnodup
  obtain ⟨primary, hprimary, -, heq⟩ := hslots 0 hpos
  refine ⟨fun c hc => ?_, fun e he => ?_, hlength.trans hids, hlength ▸ hmax, n, primary, hprimary,
    fun e he => ?_⟩
  · obtain ⟨j, hj⟩ := List.getElem?_of_mem hc
    exact (hat j c hj).2.1
  · obtain ⟨i, hi⟩ := List.getElem?_of_mem he
    have hmem : e ∈ share channelEntries count (i % count) := mem_share.2 ⟨i, hi, rfl⟩
    obtain ⟨c, hc, -, heq⟩ := hslots (i % count) (Nat.mod_lt _ hpos)
    refine ⟨i % count, c, hc, heq ▸ List.mem_append_left _ hmem, fun j c' hc' hkey => ?_⟩
    obtain ⟨-, -, rfl⟩ := hat j c' hc'
    obtain ⟨e', he', hkeyEq⟩ := List.mem_map.1 hkey
    rcases List.mem_append.1 he' with he' | he'
    · exact mem_share_unique (List.nodup_append.1 hnodup).1 he' hmem hkeyEq
    · split at he'
      · exact absurd (hkeyEq ▸ List.mem_map_of_mem (List.mem_of_mem_filter he'))
          (hdisjoint (List.mem_map_of_mem he))
      · cases he'
  · have hnot : e ∉ share channelEntries count 0 := by
      intro hmem
      obtain ⟨i, hi, -⟩ := mem_share.1 hmem
      exact hdisjoint (List.mem_map_of_mem (List.mem_of_getElem? hi)) (List.mem_map_of_mem he)
    simp only [heq, if_true, List.mem_append, hnot, false_or, List.mem_filter, he, true_and,
      decide_eq_true_eq, not_not]
    refine ⟨fun hkey => ?_, fun hmem => List.mem_map_of_mem hmem⟩
    obtain ⟨e', he', hkeyEq⟩ := List.mem_map.1 hkey
    have hothers' := (evictionOrder_perm hothers).subset (List.mem_of_mem_take he')
    rwa [← List.inj_on_of_nodup_map (List.nodup_append.1 hnodup).2.1 hothers' he hkeyEq]

end Split

def decimal : Numbers where
  text n := (Nat.toDigits 10 n).map fun c => UInt16.ofNat c.toNat
  text_ascii n := by
    have hascii : ∀ c : Char, c.isDigit = true → UInt16.ofNat c.toNat < 0x80 := by
      intro c hc
      simp only [Char.isDigit, Bool.and_eq_true, decide_eq_true_eq] at hc
      have hle : c.toNat ≤ 57 := hc.2
      rw [UInt16.lt_iff_toNat_lt, UInt16.toNat_ofNat']
      change c.toNat % 65536 < 128
      omega
    intro u hu
    obtain ⟨c, hc, rfl⟩ := List.mem_map.1 hu
    exact hascii c (Nat.isDigit_of_mem_toDigits (by decide) (by decide) hc)

def sampleChannels : Contexts := [(ascii "general", 100), (ascii "random", 200)]

def sampleOthers : Contexts := [(ascii "msg:1", 7), (ascii "msg:2", 6)]

theorem split_within_budget_sample : ∃ result,
    splitContextsIntoBudgetedSlots decimal (ascii "client") sampleChannels sampleOthers 1 2 66
      (fun _ => ascii "slot") = some result ∧
      result.slots.length = 1 + result.extraSlotIds.length ∧
      ∀ c ∈ result.slots, blobBytes decimal (ascii "client") c ≤ 66 := by
  obtain ⟨result, hresult⟩ : ∃ result, splitContextsIntoBudgetedSlots decimal (ascii "client")
      sampleChannels sampleOthers 1 2 66 (fun _ => ascii "slot") = some result :=
    Option.isSome_iff_exists.1 (by decide +kernel)
  obtain ⟨hbytes, -, hlength, -⟩ := (split_within_budget decimal (ascii "client") (by decide +kernel)
    (by decide +kernel) (by decide +kernel) le_rfl).1 result hresult
  exact ⟨result, hresult, hlength, by exact_mod_cast hbytes⟩

end Colony.ReadState
