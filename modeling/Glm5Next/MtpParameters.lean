import Glm5Next.MtpEmbedding

namespace Glm5Next.MtpParameters
open TextSearch PairedHalves Fp8Projections MtpLoading MtpOrder MtpEmbedding

-- A drafter's checkpoint: the halves that meet in a slot dequantize, and no
-- attention projection stands directly under an indexer.
structure Checkpoint {T : Type} (d : Drafter T) where
  tensors : List (CheckpointTensor T)
  apart : Apart d tensors
  dequantizes : ∀ slot weightFp8 scaleInv, Half d tensors slot true weightFp8 → Half d tensors slot false scaleInv →
    ∃ weightBf16, slotDequant d slot weightFp8 scaleInv = some weightBf16

section Calls
variable {T : Type} {d : Drafter T}

def Candidate (d : Drafter T) (tensors : List (CheckpointTensor T)) (call : Call T) : Prop :=
  (∃ t ∈ tensors, event d t = some (.direct (some call))) ∨
    ∃ slot weightFp8 scaleInv, Half d tensors slot true weightFp8 ∧ Half d tensors slot false scaleInv ∧
      slotCall d slot weightFp8 scaleInv = some call

def Fails (d : Drafter T) (tensors : List (CheckpointTensor T)) : Prop :=
  (∃ t ∈ tensors, event d t = some (.direct none)) ∨
    (∃ slot weightFp8 scaleInv, Half d tensors slot true weightFp8 ∧ Half d tensors slot false scaleInv ∧
      slotTarget slot ∉ d.params) ∨
    ∃ layer ∈ specLayers d, ∀ call, Candidate d tensors call →
      getSpecLayerIdxFromWeightName d.numHiddenLayers d.numNextnPredictLayers call.param ≠ some layer

theorem half_perm (order : stream.Perm tensors) : Half d stream slot isWeight v ↔ Half d tensors slot isWeight v := by
  simp only [Half,order.mem_iff]

theorem apart_perm (order : stream.Perm tensors) (apart : Apart d tensors) : Apart d stream := by
  intro layerPrefix isWeight v half proj isWeight' v' half'
  exact apart layerPrefix isWeight v ((half_perm order).mp half) proj isWeight' v' ((half_perm order).mp half')

theorem direct_event {stream : List (CheckpointTensor T)} :
    Event.direct call ∈ events d stream ↔ ∃ t ∈ stream, event d t = some (.direct call) := List.mem_filterMap

theorem slot_call_exact (called : slotCall d slot weightFp8 scaleInv = some call) :
    call.param = slotTarget slot ∧ call.shard = slotShard slot := by
  obtain ⟨weightBf16,_,called⟩ := Option.bind_eq_some_iff.mp called
  split at called
  · cases called
    exact ⟨rfl,rfl⟩
  · cases called

theorem all_called {log : List (Option (Call T))} (each : ∀ x ∈ log, ∃ call, x = some call) :
    ∃ calls, log.mapM id = some calls ∧ log = calls.map some := by
  obtain ⟨calls,related⟩ := all_related log each
  refine ⟨calls,(mapM_some _ _).mpr related,?_⟩
  have same : List.Forall₂ (· = ·) log (calls.map some) := List.forall₂_map_right_iff.mpr related
  exact List.forall₂_eq_eq_eq ▸ same

theorem none_called {log : List (Option (Call T))} (failed : none ∈ log) : log.mapM id = none := by
  cases mapped : log.mapM id with
  | none => rfl
  | some calls =>
      obtain ⟨call,_,same⟩ := related_left ((mapM_some _ _).mp mapped) failed
      cases same

variable (cp : Checkpoint d) {stream : List (CheckpointTensor T)} (order : stream.Perm cp.tensors)
include order

theorem load_weights_run : loadWeights d stream = ((run (slotCall d) start (events d stream)).log.mapM id).bind fun calls =>
    if (specLayers d).all (layerLoaded d calls) then some calls else none := by
  have ran := load_run d stream (apart_perm order cp.apart)
  unfold loadWeights
  cases loaded : stream.foldlM (fun s t => loadOne d t s) Loading.initial with
  | none =>
      rw [loaded] at ran
      rw [Option.map_eq_none_iff.mp ran.symm]
      rfl
  | some s =>
      rw [loaded] at ran
      obtain ⟨calls,mapped,same⟩ := Option.map_eq_some_iff.mp ran.symm
      have calls_same : calls = s.calls := congrArg State.log same
      rw [mapped,calls_same]
      rfl

theorem logged_candidate (logged : some call ∈ (run (slotCall d) start (events d stream)).log) :
    Candidate d cp.tensors call := by
  rcases (tracks_run (slotCall d) (events d stream)).known _ logged with direct | ⟨slot,l,r,left,right,same⟩
  · obtain ⟨t,member,called⟩ := direct_event.mp direct
    exact Or.inl ⟨t,order.mem_iff.mp member,called⟩
  · exact Or.inr ⟨slot,l,r,(half_perm order).mp ((half_event d).mp left),(half_perm order).mp ((half_event d).mp right),
      same.symm⟩

structure Called (d : Drafter T) (tensors stream : List (CheckpointTensor T)) (calls : List (Call T)) : Prop where
  loaded : loadWeights d stream = some calls
  log : (run (slotCall d) start (events d stream)).log = calls.map some
  known : ∀ call ∈ calls, Candidate d tensors call
  addressed : ∀ call, Candidate d tensors call → ∃ made ∈ calls, made.param = call.param ∧ made.shard = call.shard

theorem load_called (loads : ¬ Fails d cp.tensors) : ∃ calls, Called d cp.tensors stream calls := by
  have tracks := tracks_run (slotCall d) (events d stream)
  have each : ∀ x ∈ (run (slotCall d) start (events d stream)).log, ∃ call, x = some call := by
    intro x logged
    rcases tracks.known x logged with direct | ⟨slot,l,r,left,right,same⟩
    · obtain ⟨t,member,called⟩ := direct_event.mp direct
      cases x with
      | none => exact absurd (Or.inl ⟨t,order.mem_iff.mp member,called⟩) loads
      | some call => exact ⟨call,rfl⟩
    · have left := (half_perm order).mp ((half_event d).mp left)
      have right := (half_perm order).mp ((half_event d).mp right)
      obtain ⟨weightBf16,dequantized⟩ := cp.dequantizes slot l r left right
      have present : slotTarget slot ∈ d.params := by
        by_contra absent
        exact loads (Or.inr (Or.inl ⟨slot,l,r,left,right,absent⟩))
      refine ⟨⟨slotTarget slot,slotShard slot,weightBf16⟩,same.trans ?_⟩
      unfold slotCall
      rw [dequantized,Option.bind_some,if_pos present]
  obtain ⟨calls,mapped,log⟩ := all_called each
  have known : ∀ call ∈ calls, Candidate d cp.tensors call := by
    intro call member
    exact logged_candidate cp order (log ▸ List.mem_map_of_mem member)
  have addressed : ∀ call, Candidate d cp.tensors call →
      ∃ made ∈ calls, made.param = call.param ∧ made.shard = call.shard := by
    intro call candidate
    rcases candidate with ⟨t,member,direct⟩ | ⟨slot,l,r,left,right,called⟩
    · have logged := tracks.calls (some call) (direct_event.mpr ⟨t,order.mem_iff.mpr member,direct⟩)
      rw [log] at logged
      obtain ⟨made,member,same⟩ := List.mem_map.mp logged
      cases same
      exact ⟨call,member,rfl,rfl⟩
    · obtain ⟨l',r',_,_,logged⟩ := pair_taken (slotCall d) ((half_event d).mpr ((half_perm order).mpr left))
        ((half_event d).mpr ((half_perm order).mpr right))
      rw [log] at logged
      obtain ⟨made,member,same⟩ := List.mem_map.mp logged
      obtain ⟨param,shard⟩ := slot_call_exact called
      obtain ⟨param',shard'⟩ := slot_call_exact same.symm
      exact ⟨made,member,param'.trans param.symm,shard'.trans shard.symm⟩
  refine ⟨calls,?_,log,known,addressed⟩
  rw [load_weights_run cp order,mapped,Option.bind_some]
  apply if_pos
  rw [List.all_eq_true]
  intro layer listed
  by_contra missing
  apply loads
  refine Or.inr (Or.inr ⟨layer,listed,?_⟩)
  intro call candidate found
  obtain ⟨made,member,param,_⟩ := addressed call candidate
  apply missing
  exact List.any_eq_true.mpr ⟨made,member,decide_eq_true (by rw [param,found])⟩

theorem load_fails (fails : Fails d cp.tensors) : loadWeights d stream = none := by
  have tracks := tracks_run (slotCall d) (events d stream)
  rw [load_weights_run cp order]
  rcases fails with ⟨t,member,failed⟩ | ⟨slot,l,r,left,right,absent⟩ | ⟨layer,listed,missing⟩
  · rw [none_called (tracks.calls none (direct_event.mpr ⟨t,order.mem_iff.mpr member,failed⟩))]
    rfl
  · obtain ⟨l',r',_,_,logged⟩ := pair_taken (slotCall d) ((half_event d).mpr ((half_perm order).mpr left))
      ((half_event d).mpr ((half_perm order).mpr right))
    have failed : slotCall d slot l' r' = none := by
      unfold slotCall
      cases slotDequant d slot l' r' with
      | none => rfl
      | some weightBf16 => exact if_neg absent
    rw [none_called (failed ▸ logged)]
    rfl
  · cases mapped : (run (slotCall d) start (events d stream)).log.mapM id with
    | none => rfl
    | some calls =>
        apply if_neg
        intro all
        obtain ⟨call,member,found⟩ := List.any_eq_true.mp (List.all_eq_true.mp all layer listed)
        obtain ⟨x,logged,same⟩ := related_left ((mapM_some _ _).mp mapped).flip member
        have same : x = some call := same
        subst same
        exact missing call (logged_candidate cp order logged) (of_decide_eq_true found)

end Calls
section Last
variable {T : Type} {d : Drafter T}

def sideOf (d : Drafter T) (slot : Slot) (t : CheckpointTensor T) : Option Bool :=
  match event d t with
  | some (.half slot' isWeight _) => if slot' = slot then some isWeight else none
  | _ => none

theorem layer_half {t : CheckpointTensor T} (half : layerEvent d specLayer t = some (.half slot isWeight v)) : v = t.tensor := by
  unfold layerEvent at half
  split at half
  · cases half
    rfl
  · split at half
    · cases half
      rfl
    · split at half <;> cases half

theorem event_half {t : CheckpointTensor T} (half : event d t = some (.half slot isWeight v)) : v = t.tensor := by
  unfold event at half
  split at half
  · cases half
  · dsimp only at half
    split at half
    · split at half <;> cases half
    · have tensor := layer_half half
      exact tensor

theorem side_exact {t : CheckpointTensor T} :
    sideOf d slot t = some isWeight ↔ event d t = some (.half slot isWeight t.tensor) := by
  unfold sideOf
  constructor
  · intro side
    split at side
    · rename_i slot' isWeight' v found
      split at side
      · rename_i same
        cases side
        rw [found,same,event_half found]
      · cases side
    · cases side
  · intro half
    rw [half]
    exact if_pos rfl

theorem side_none {t : CheckpointTensor T} (side : sideOf d slot t = none) (isWeight : Bool) (v : T) :
    event d t ≠ some (.half slot isWeight v) := by
  intro half
  rw [event_half half] at half
  rw [side_exact.mpr half] at side
  cases side

theorem side_events (stream : List (CheckpointTensor T)) (sides : ∀ t ∈ stream, sideOf d slot t = some isWeight) :
    events d stream = (stream.map CheckpointTensor.tensor).map fun v => .half slot isWeight v := by
  induction stream with
  | nil => rfl
  | cons t stream ih =>
      have first := side_exact.mp (sides t List.mem_cons_self)
      unfold events at ih ⊢
      rw [List.filterMap_cons_some first,ih fun t member => sides t (List.mem_cons_of_mem _ member)]
      rfl

def part (d : Drafter T) (slot : Slot) (side : Option Bool) (tensors : List (CheckpointTensor T)) : List (CheckpointTensor T) :=
  tensors.filter fun t => decide (sideOf d slot t = side)

theorem part_member (member : t ∈ tensors) (side : sideOf d slot t = which) : t ∈ part d slot which tensors :=
  List.mem_filter.mpr ⟨member,decide_eq_true side⟩

theorem part_side (member : t ∈ part d slot which tensors) : sideOf d slot t = which :=
  of_decide_eq_true (List.mem_filter.mp member).2

theorem parts_perm (d : Drafter T) (slot : Slot) (tensors : List (CheckpointTensor T)) :
    (part d slot none tensors ++ (part d slot (some true) tensors ++ part d slot (some false) tensors)).Perm tensors := by
  induction tensors with
  | nil => exact List.Perm.refl _
  | cons t tensors ih =>
      unfold part at ih ⊢
      rcases side : sideOf d slot t with _ | isWeight
      · simpa [side] using ih
      · cases isWeight with
        | true =>
            simp only [List.filter_cons,side,reduceCtorEq,decide_false,Bool.false_eq_true,if_false,decide_true,if_true,
              Option.some.injEq]
            exact List.perm_middle.trans (ih.cons t)
        | false =>
            simp only [List.filter_cons,side,reduceCtorEq,decide_false,Bool.false_eq_true,if_false,decide_true,if_true,
              Option.some.injEq]
            rw [← List.append_assoc] at ih ⊢
            exact List.perm_middle.trans (ih.cons t)

variable (cp : Checkpoint d)

theorem called_last (loads : ¬ Fails d cp.tensors) (candidate : Candidate d cp.tensors call) :
    ∃ stream calls, stream.Perm cp.tensors ∧ loadWeights d stream = some (calls ++ [call]) := by
  have ends : ∀ stream log, stream.Perm cp.tensors →
      (run (slotCall d) start (events d stream)).log = log ++ [some call] →
      ∃ stream calls, stream.Perm cp.tensors ∧ loadWeights d stream = some (calls ++ [call]) := by
    intro stream log order last
    obtain ⟨calls,called⟩ := load_called cp order loads
    have split := called.log.symm.trans last
    obtain ⟨before,after,rfl,_,same⟩ := List.map_eq_append_iff.mp split
    obtain ⟨call',rest,rfl,found,none_after⟩ := List.map_eq_cons_iff.mp same
    cases found
    rw [List.map_eq_nil_iff.mp none_after] at called
    exact ⟨stream,before,order,called.loaded⟩
  rcases candidate with ⟨t,member,direct⟩ | ⟨slot,l,r,left,right,called⟩
  · obtain ⟨before,after,whole⟩ := List.append_of_mem member
    apply ends (before ++ after ++ [t]) (run (slotCall d) start (events d (before ++ after))).log
    · rw [whole]
      exact (List.perm_append_singleton t _).trans List.perm_middle.symm
    · unfold events
      rw [List.filterMap_append,List.filterMap_cons_some direct,run_append]
      rfl
  · obtain ⟨t,member,half⟩ := left
    obtain ⟨t',member',half'⟩ := right
    have tensor := event_half half
    have tensor' := event_half half'
    subst tensor
    subst tensor'
    have member := part_member member (side_exact.mpr half)
    have member' := part_member member' (side_exact.mpr half')
    obtain ⟨before,after,lefts⟩ := List.append_of_mem member
    obtain ⟨before',after',rights⟩ := List.append_of_mem member'
    have lefts_order : (before ++ after ++ [t]).Perm (part d slot (some true) cp.tensors) := by
      rw [lefts]
      exact (List.perm_append_singleton t _).trans List.perm_middle.symm
    have rights_order : (t' :: (before' ++ after')).Perm (part d slot (some false) cp.tensors) := by
      rw [rights]
      exact List.perm_middle.symm
    apply ends (part d slot none cp.tensors ++ (before ++ after ++ [t]) ++ (t' :: (before' ++ after')))
      (run (slotCall d) start (events d (part d slot none cp.tensors))).log
    · refine List.Perm.trans ?_ (parts_perm d slot cp.tensors)
      rw [List.append_assoc]
      exact (lefts_order.append rights_order).append_left _
    · have left_events := side_events (before ++ after ++ [t]) fun x inside => part_side (lefts_order.mem_iff.mp inside)
      have right_events := side_events (t' :: (before' ++ after')) fun x inside => part_side (rights_order.mem_iff.mp inside)
      have free : ∀ e ∈ events d (part d slot none cp.tensors), ∀ isWeight v, e ≠ .half slot isWeight v := by
        rintro e member isWeight v rfl
        obtain ⟨t,listed,found⟩ := (half_event d).mp member
        exact side_none (part_side listed) isWeight v found
      have split : ∀ first second, events d (first ++ second) = events d first ++ events d second :=
        fun first second => List.filterMap_append
      rw [split,split,left_events,right_events,List.map_append,List.map_cons,List.map_nil,List.map_cons,
        last_pair _ free,called]

end Last

section Parameters
variable {T E A : Type} {d : Drafter T} (loaders : Loaders T E A)

def Covers (call : Call T) (name : Name) (e : E) : Prop := call.param = name ∧ loaders.covers name call.shard e = true

variable {loaders}

theorem final_append (params : Name → E → A) (first second : List (Call T)) :
    finalParams loaders params (first ++ second) = finalParams loaders (finalParams loaders params first) second :=
  List.foldl_append

theorem assign_covered (params : Name → E → A) (covers : Covers loaders call name e) :
    assign loaders params call name e = loaders.value name call.shard call.tensor e := if_pos covers

theorem assign_apart (params : Name → E → A) (apart : ¬ Covers loaders call name e) :
    assign loaders params call name e = params name e := if_neg apart

theorem final_apart (params : Name → E → A) (calls : List (Call T)) (apart : ∀ call ∈ calls, ¬ Covers loaders call name e) :
    finalParams loaders params calls name e = params name e := by
  induction calls using List.reverseRecOn with
  | nil => rfl
  | append_singleton calls call ih =>
      rw [final_append]
      refine (assign_apart _ (apart call (by simp))).trans ?_
      exact ih fun call member => apart call (List.mem_append_left _ member)

theorem final_agreed (params : Name → E → A) (calls : List (Call T))
    (agree : ∀ call ∈ calls, Covers loaders call name e → loaders.value name call.shard call.tensor e = v)
    (reached : ∃ call ∈ calls, Covers loaders call name e) : finalParams loaders params calls name e = v := by
  induction calls using List.reverseRecOn with
  | nil =>
      obtain ⟨call,member,_⟩ := reached
      cases member
  | append_singleton calls call ih =>
      rw [final_append]
      by_cases covers : Covers loaders call name e
      · exact (assign_covered _ covers).trans (agree call (by simp) covers)
      · refine (assign_apart _ covers).trans ?_
        apply ih fun call member => agree call (List.mem_append_left _ member)
        obtain ⟨call',member,covers'⟩ := reached
        rcases List.mem_append.mp member with before | last
        · exact ⟨call',before,covers'⟩
        · cases List.mem_singleton.mp last
          exact absurd covers' covers

def Agree (loaders : Loaders T E A) (d : Drafter T) (tensors : List (CheckpointTensor T)) : Prop :=
  ∀ call call', Candidate d tensors call → Candidate d tensors call' → ∀ name e, Covers loaders call name e →
    Covers loaders call' name e → loaders.value name call.shard call.tensor e = loaders.value name call'.shard call'.tensor e

def loadedParams (loaders : Loaders T E A) (d : Drafter T) (params : Name → E → A) (stream : List (CheckpointTensor T)) :
    Option (Name → E → A) :=
  (loadWeights d stream).map (finalParams loaders params)

-- Any two orders leave the same values, and where the MTP layer has a table of
-- its own, that is what the drafter's embedding holds.
def OrderFree (loaders : Loaders T E A) (cp : Checkpoint d) : Prop :=
  (∀ first second, first.Perm cp.tensors → second.Perm cp.tensors → ∀ params,
    loadedParams loaders d params first = loadedParams loaders d params second) ∧
  ∀ t ∈ cp.tensors, t.name = ownEmbedTokens d ∨ t.name = prefixedOwnEmbedTokens d → ∀ stream, stream.Perm cp.tensors →
    ∀ params final, loadedParams loaders d params stream = some final → ∀ e, loaders.covers embedTokens none e = true →
      final embedTokens e = loaders.value embedTokens none t.tensor e

theorem called_agreed (cp : Checkpoint d) (agree : Agree loaders d cp.tensors) (called : Called d cp.tensors stream calls)
    (params : Name → E → A) (candidate : Candidate d cp.tensors call) (covers : Covers loaders call name e) :
    finalParams loaders params calls name e = loaders.value name call.shard call.tensor e := by
  apply final_agreed
  · intro call' member covers'
    exact agree call' call (called.known call' member) candidate name e covers' covers
  · obtain ⟨made,member,param,shard⟩ := called.addressed call candidate
    refine ⟨made,member,param.trans covers.1,?_⟩
    rw [shard]
    exact covers.2

theorem called_same (cp : Checkpoint d) (agree : Agree loaders d cp.tensors) (called : Called d cp.tensors stream calls)
    (called' : Called d cp.tensors stream' calls') (params : Name → E → A) :
    finalParams loaders params calls = finalParams loaders params calls' := by
  funext name e
  by_cases reached : ∃ call, Candidate d cp.tensors call ∧ Covers loaders call name e
  · obtain ⟨call,candidate,covers⟩ := reached
    rw [called_agreed cp agree called params candidate covers,called_agreed cp agree called' params candidate covers]
  · rw [final_apart params calls fun call member covers => reached ⟨call,called.known call member,covers⟩,
      final_apart params calls' fun call member covers => reached ⟨call,called'.known call member,covers⟩]

-- The order makes no difference just where the load fails in any order, or all
-- sources of one element agree.
theorem order_free_iff (loaders : Loaders T E A) (cp : Checkpoint d) :
    OrderFree loaders cp ↔ Fails d cp.tensors ∨ Agree loaders d cp.tensors := by
  constructor
  · intro ⟨same,_⟩
    by_cases fails : Fails d cp.tensors
    · exact Or.inl fails
    · right
      intro call call' candidate candidate' name e covers covers'
      obtain ⟨stream,calls,order,loaded⟩ := called_last cp fails candidate
      obtain ⟨stream',calls',order',loaded'⟩ := called_last cp fails candidate'
      have equal := same stream stream' order order' fun _ _ => loaders.value name call.shard call.tensor e
      unfold loadedParams at equal
      rw [loaded,loaded'] at equal
      have finals := congrFun₂ (Option.some.inj equal) name e
      rw [final_append,final_append] at finals
      exact (assign_covered _ covers).symm.trans (finals.trans (assign_covered _ covers'))
  · intro fits
    by_cases fails : Fails d cp.tensors
    · constructor
      · intro first second order order' params
        unfold loadedParams
        rw [load_fails cp order fails,load_fails cp order' fails]
      · intro t _ _ stream order params final loaded
        unfold loadedParams at loaded
        rw [load_fails cp order fails] at loaded
        cases loaded
    · have agree := fits.resolve_left fails
      constructor
      · intro first second order order' params
        obtain ⟨calls,called⟩ := load_called cp order fails
        obtain ⟨calls',called'⟩ := load_called cp order' fails
        unfold loadedParams
        rw [called.loaded,called'.loaded]
        exact congrArg some (called_same cp agree called called' params)
      · intro t member own stream order params final loaded e covers
        obtain ⟨calls,called⟩ := load_called cp order fails
        unfold loadedParams at loaded
        rw [called.loaded] at loaded
        cases loaded
        have direct := own_event d t own
        by_cases present : embedTokens ∈ d.params
        · rw [if_pos present] at direct
          exact called_agreed cp agree called params (Or.inl ⟨t,member,direct⟩) ⟨rfl,covers⟩
        · rw [if_neg present] at direct
          exact absurd (Or.inl ⟨t,member,direct⟩) fails

end Parameters

def drafter45 : Drafter Nat where
  numHiddenLayers := 45
  numNextnPredictLayers := 1
  params := [embedTokens,"model.layers.45.enorm.weight".toList]
  expertParamsMapping := []
  isLocal _ _ _ := true
  remapKvScale := some
  dequantWk weightFp8 _ := some weightFp8
  dequantAttn _ weightFp8 _ := some weightFp8
  someLayer := Nat.one_pos
  expertNames := by simp
  remapPlain _ _ := rfl

def wholeLoaders : Loaders Nat Unit Nat := ⟨fun _ _ _ => true,fun _ _ t _ => t⟩

def targetTable : CheckpointTensor Nat := ⟨embedTokens,false,1⟩

def ownTable : CheckpointTensor Nat := ⟨"model.layers.45.embed_tokens.weight".toList,false,2⟩

def ownNorm : CheckpointTensor Nat := ⟨"model.layers.45.enorm.weight".toList,false,3⟩

theorem tables_direct : ∀ t ∈ [targetTable,ownTable,ownNorm], ∃ call, event drafter45 t = some (.direct call) := by
  intro t member
  fin_cases member <;> exact ⟨_,rfl⟩

def twoTables : Checkpoint drafter45 where
  tensors := [targetTable,ownTable,ownNorm]
  apart := by
    rintro layerPrefix isWeight v ⟨t,member,half⟩
    obtain ⟨call,direct⟩ := tables_direct t member
    rw [direct] at half
    cases half
  dequantizes slot weightFp8 scaleInv _ _ := by cases slot <;> exact ⟨weightFp8,rfl⟩

theorem two_tables_ordered : ¬ OrderFree wholeLoaders twoTables ∧
    (loadedParams wholeLoaders drafter45 (fun _ _ => 0) [ownTable,targetTable,ownNorm]).map (fun params => params embedTokens ()) =
      some 1 := by
  have own_last : (loadedParams wholeLoaders drafter45 (fun _ _ => 0) [targetTable,ownTable,ownNorm]).map
      (fun params => params embedTokens ()) = some 2 := by decide
  have target_last : (loadedParams wholeLoaders drafter45 (fun _ _ => 0) [ownTable,targetTable,ownNorm]).map
      (fun params => params embedTokens ()) = some 1 := by decide
  refine ⟨?_,target_last⟩
  intro ⟨same,_⟩
  have equal := same [targetTable,ownTable,ownNorm] [ownTable,targetTable,ownNorm] (List.Perm.refl _)
    (List.Perm.swap _ _ _) fun _ _ => 0
  rw [equal,target_last] at own_last
  cases own_last

end Glm5Next.MtpParameters
