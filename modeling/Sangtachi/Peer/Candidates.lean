import Sangtachi.Lobby.Requests
import Sangtachi.Core.FirstOccurrences

/-! # Collecting candidates

What the interfaces and the routes of this computer give: the list of candidates it registers, and
the subnets it is itself in. Both tables are read by the system; only judging them is done here. -/
namespace Sangtachi.Candidates

open Sangtachi.BigEndian Sangtachi.Peer Sangtachi.Lobby Sangtachi.FirstOccurrences

/-! ## What the system tells -/

abbrev InterfaceGuid := Vector U8 16

inductive OperStatus where
  | up | down | testing | unknown | dormant | notPresent | lowerLayerDown
  deriving DecidableEq, Repr

inductive DadState where
  | invalid | tentative | duplicate | deprecated | preferred
  deriving DecidableEq, Repr

structure InterfaceAddress where
  address : U32
  /-- As the system has it: it may lie outside of 0 to 32. -/
  prefixLength : U8
  dadState : DadState
  deriving DecidableEq, Repr

structure InterfaceInfo where
  ifIndex : U32
  ifType : U32
  operStatus : OperStatus
  guid : InterfaceGuid
  addresses : List InterfaceAddress
  deriving DecidableEq

structure Ipv4Route where
  destination : U32
  prefixLength : U8
  ifIndex : U32
  routeMetric : U32
  interfaceMetric : U32
  deriving DecidableEq, Repr

structure InterfaceQuery where
  ok : Bool
  error : U32
  interfaces : List InterfaceInfo

structure RouteQuery where
  ok : Bool
  error : U32
  routes : List Ipv4Route

/-! ## Judging the interfaces -/

def ifTypePpp : U32 := 23
def ifTypeSoftwareLoopback : U32 := 24
def ifTypePropVirtual : U32 := 53
def ifTypeTunnel : U32 := 131

def isLoopback (address : U32) : Bool := address &&& 0xFF000000#32 = 0x7F000000#32

def isApipa (address : U32) : Bool := address &&& 0xFFFF0000#32 = 0xA9FE0000#32

def isActive (status : OperStatus) (dad : DadState) : Bool := status = .up && dad = .preferred

def isExcludedIfType (ifType : U32) : Bool :=
  ifType = ifTypeSoftwareLoopback || ifType = ifTypePropVirtual || ifType = ifTypeTunnel ||
    ifType = ifTypePpp

def fitsOwnSubnet (address : U32) (prefixLength : U8) : Bool :=
  !isLoopback address && prefixLength.toNat ≤ maxBroadcastPrefix

theorem isLoopback_eq (address : U32) : isLoopback address = decide (address >>> 24 = 127) := by
  have hmask : address &&& 0xFF000000#32 = (address >>> 24) <<< 24 := by
    apply BitVec.eq_of_getLsbD_eq
    intro i hi
    interval_cases i <;> simp
  have hinj : (address >>> 24) <<< 24 = 0x7F000000#32 ↔ address >>> 24 = 127 := by
    constructor
    · intro h
      have hlt := address.isLt
      have hnat := congrArg BitVec.toNat h
      rw [BitVec.toNat_shiftLeft, BitVec.toNat_ushiftRight, Nat.shiftRight_eq_div_pow,
        Nat.shiftLeft_eq] at hnat
      apply BitVec.eq_of_toNat_eq
      rw [BitVec.toNat_ushiftRight, Nat.shiftRight_eq_div_pow]
      change address.toNat / 2 ^ 24 * 2 ^ 24 % 2 ^ 32 = 2130706432 at hnat
      change address.toNat / 2 ^ 24 = 127
      omega
    · intro h
      rw [h]
      rfl
  rw [isLoopback, hmask]
  exact decide_eq_decide.mpr hinj

theorem fitsOwnSubnet_fits {address : U32} {prefixLength : U8}
    (h : fitsOwnSubnet address prefixLength = true) :
    prefixLength.toNat ≤ maxBroadcastPrefix ∧ address >>> 24 ≠ 127 := by
  rw [fitsOwnSubnet, Bool.and_eq_true, isLoopback_eq] at h
  exact ⟨of_decide_eq_true h.2, by simpa using h.1⟩

def ownSubnet (address : U32) (prefixLength : U8) : Option OwnSubnet :=
  if h : fitsOwnSubnet address prefixLength = true then
    some ⟨address, prefixLength.toNat, fitsOwnSubnet_fits h⟩
  else none

def ownSubnets (entries : List (U32 × U8)) : List OwnSubnet :=
  entries.filterMap fun e => ownSubnet e.1 e.2

structure LocalAddress where
  address : U32
  ifIndex : U32
  deriving DecidableEq, Repr

structure InterfaceJudgement where
  candidates : List LocalAddress
  ownSubnets : List OwnSubnet

/-- The two lists filled while the addresses are gone through. -/
structure Judging where
  candidates : List LocalAddress
  subnets : List (U32 × U8)

def judgeAddress (iface : InterfaceInfo) (excludedInterface : Bool) (out : Judging)
    (addr : InterfaceAddress) :
    Judging :=
  if !isActive iface.operStatus addr.dadState then out
  else
    let out :=
      if fitsOwnSubnet addr.address addr.prefixLength then
        { out with subnets := out.subnets ++ [(addr.address, addr.prefixLength)] }
      else out
    if excludedInterface || isLoopback addr.address || isApipa addr.address then out
    else { out with candidates := out.candidates ++ [⟨addr.address, iface.ifIndex⟩] }

def judgeInterface (ownWintun : Option InterfaceGuid) (out : Judging)
    (iface : InterfaceInfo) : Judging :=
  let own := ownWintun = some iface.guid
  iface.addresses.foldl (judgeAddress iface (own || isExcludedIfType iface.ifType)) out

def judgeInterfaces (interfaces : List InterfaceInfo) (ownWintun : Option InterfaceGuid) :
    InterfaceJudgement :=
  let out := interfaces.foldl (judgeInterface ownWintun) ⟨[], []⟩
  ⟨out.candidates, ownSubnets out.subnets⟩

/-! ## The default route -/

def isDefaultRoute (r : Ipv4Route) : Bool := r.destination = 0 && r.prefixLength = 0

def Ipv4Route.sum (r : Ipv4Route) : ℕ := r.routeMetric.toNat + r.interfaceMetric.toNat

def betterRoute (best : Option (U32 × ℕ)) (r : Ipv4Route) : Option (U32 × ℕ) :=
  if !isDefaultRoute r then best
  else match best with
    | none => some (r.ifIndex, r.sum)
    | some (bestIf, bestSum) =>
      if r.sum < bestSum then some (r.ifIndex, r.sum) else some (bestIf, bestSum)

def defaultRouteInterface (routes : List Ipv4Route) : Option U32 :=
  (routes.foldl betterRoute none).map Prod.fst

/-! ## The registration list -/

def pushUnique (out : List Candidate) (c : Candidate) : List Candidate :=
  if out.any (·.endpoint = c.endpoint) then out else out ++ [c]

def reflexiveCandidate (e : Endpoint) : Candidate := ⟨e, .reflexive⟩

def localCandidate (localPort : U16) (l : LocalAddress) : Candidate :=
  ⟨⟨l.address, localPort⟩, .local⟩

def registrationList (reflexive : List Endpoint) (locals : List LocalAddress)
    (defaultIf : Option U32) (localPort : U16) :
    List Candidate :=
  let out := reflexive.foldl (fun out r => pushUnique out (reflexiveCandidate r)) []
  let out := match defaultIf with
    | none => out
    | some i =>
      locals.foldl
        (fun out l => if l.ifIndex = i then
          pushUnique out (localCandidate localPort l) else out) out
  let out := locals.foldl
    (fun out l => if defaultIf = some l.ifIndex then
      out else pushUnique out (localCandidate localPort l)) out
  if maxCandidates < out.length then out.take maxCandidates else out

structure Collection where
  registration : List Candidate
  ownSubnets : List OwnSubnet
  enumerateFailed : Bool := false
  enumerateError : U32 := 0
  routeFailed : Bool := false
  routeError : U32 := 0

def collect (reflexive : List Endpoint) (localPort : U16) (interfaces : InterfaceQuery)
    (routes : RouteQuery) (ownWintun : Option InterfaceGuid) (previous : List OwnSubnet) :
    Collection :=
  let judged := judgeInterfaces interfaces.interfaces ownWintun
  let locals := if interfaces.ok then judged.candidates else []
  let defaultIf := if routes.ok then defaultRouteInterface routes.routes else none
  { registration := registrationList reflexive locals defaultIf localPort
    ownSubnets := if interfaces.ok then judged.ownSubnets else previous
    enumerateFailed := !interfaces.ok
    enumerateError := if interfaces.ok then 0 else interfaces.error
    routeFailed := !routes.ok
    routeError := if routes.ok then 0 else routes.error }

/-! ## What a table is judged to be -/

def Eligible (ownWintun : Option InterfaceGuid) (iface : InterfaceInfo)
    (addr : InterfaceAddress) : Bool :=
  isActive iface.operStatus addr.dadState &&
    !(ownWintun = some iface.guid || isExcludedIfType iface.ifType) &&
    !isLoopback addr.address && !isApipa addr.address

def eligibleLocals (interfaces : List InterfaceInfo) (ownWintun : Option InterfaceGuid) :
    List LocalAddress :=
  interfaces.flatMap fun iface =>
    (iface.addresses.filter (Eligible ownWintun iface)).map fun addr =>
      ⟨addr.address, iface.ifIndex⟩

def activeSubnets (interfaces : List InterfaceInfo) : List OwnSubnet :=
  interfaces.flatMap fun iface =>
    (iface.addresses.filter fun addr =>
      isActive iface.operStatus addr.dadState).filterMap fun addr =>
      ownSubnet addr.address addr.prefixLength

/-- The subnet entries an interface gives, before the set is made of them. -/
def activeEntries (iface : InterfaceInfo) : List (U32 × U8) :=
  (iface.addresses.filter fun addr =>
    isActive iface.operStatus addr.dadState &&
      fitsOwnSubnet addr.address addr.prefixLength).map fun addr =>
      (addr.address, addr.prefixLength)

theorem judgeAddress_eq (ownWintun : Option InterfaceGuid) (iface : InterfaceInfo) (out : Judging)
    (addr : InterfaceAddress) :
    judgeAddress iface (ownWintun = some iface.guid || isExcludedIfType iface.ifType) out addr =
      ⟨out.candidates ++ if Eligible ownWintun iface addr then
        [⟨addr.address, iface.ifIndex⟩] else [],
        out.subnets ++
          if isActive iface.operStatus addr.dadState &&
            fitsOwnSubnet addr.address addr.prefixLength then
            [(addr.address, addr.prefixLength)] else []⟩ := by
  unfold judgeAddress Eligible
  cases isActive iface.operStatus addr.dadState with
  | false => simp
  | true =>
    generalize (decide (ownWintun = some iface.guid) || isExcludedIfType iface.ifType) = excluded
    cases fitsOwnSubnet addr.address addr.prefixLength <;> cases excluded <;>
      cases isLoopback addr.address <;> cases isApipa addr.address <;> simp

theorem judgeInterface_eq (ownWintun : Option InterfaceGuid) (iface : InterfaceInfo)
    (out : Judging) :
    judgeInterface ownWintun out iface =
      ⟨out.candidates ++ (iface.addresses.filter (Eligible ownWintun iface)).map
          fun addr => ⟨addr.address, iface.ifIndex⟩,
        out.subnets ++ activeEntries iface⟩ := by
  unfold judgeInterface activeEntries
  dsimp only
  induction iface.addresses generalizing out with
  | nil => simp
  | cons addr addrs ih =>
    rw [List.foldl_cons, ih, judgeAddress_eq]
    dsimp only
    rw [List.filter_cons, List.filter_cons, List.append_assoc, List.append_assoc]
    congr 2
    · split <;> rfl
    · split <;> rfl

theorem judgeInterfaces_fold (ownWintun : Option InterfaceGuid) (interfaces : List InterfaceInfo)
    (out : Judging) :
    interfaces.foldl (judgeInterface ownWintun) out =
      ⟨out.candidates ++ eligibleLocals interfaces ownWintun,
        out.subnets ++ interfaces.flatMap activeEntries⟩ := by
  induction interfaces generalizing out with
  | nil => simp [eligibleLocals]
  | cons iface interfaces ih =>
    rw [List.foldl_cons, ih, judgeInterface_eq]
    simp [eligibleLocals, List.append_assoc]

theorem ownSubnets_flatMap (interfaces : List InterfaceInfo) :
    ownSubnets (interfaces.flatMap activeEntries) = activeSubnets interfaces := by
  unfold ownSubnets activeSubnets
  rw [List.filterMap_flatMap]
  congr 1
  funext iface
  unfold activeEntries
  rw [List.filterMap_map, List.filterMap_filter, List.filterMap_filter]
  congr 1
  funext addr
  dsimp only [Function.comp]
  cases isActive iface.operStatus addr.dadState with
  | false => simp
  | true =>
    cases hfit : fitsOwnSubnet addr.address addr.prefixLength with
    | true => simp
    | false => simp [ownSubnet, hfit]

theorem judgeInterfaces_eq (interfaces : List InterfaceInfo) (ownWintun : Option InterfaceGuid) :
    judgeInterfaces interfaces ownWintun =
      ⟨eligibleLocals interfaces ownWintun, activeSubnets interfaces⟩ := by
  unfold judgeInterfaces
  rw [judgeInterfaces_fold, List.nil_append, List.nil_append]
  dsimp only
  rw [ownSubnets_flatMap]

theorem mem_eligibleLocals {interfaces : List InterfaceInfo} {ownWintun : Option InterfaceGuid}
    {l : LocalAddress} :
    l ∈ eligibleLocals interfaces ownWintun ↔ ∃ iface ∈ interfaces, ∃ addr ∈ iface.addresses,
      Eligible ownWintun iface addr = true ∧ l = ⟨addr.address, iface.ifIndex⟩ := by
  simp only [eligibleLocals, List.mem_flatMap, List.mem_map, List.mem_filter, and_assoc, eq_comm]

theorem mem_activeSubnets {interfaces : List InterfaceInfo} {e : OwnSubnet} :
    e ∈ activeSubnets interfaces ↔ ∃ iface ∈ interfaces, ∃ addr ∈ iface.addresses,
      isActive iface.operStatus addr.dadState = true ∧ isLoopback addr.address = false ∧
        addr.prefixLength.toNat ≤ maxBroadcastPrefix ∧
        e.address = addr.address ∧ e.prefixLength = addr.prefixLength.toNat := by
  simp only [activeSubnets, List.mem_flatMap, List.mem_filterMap, List.mem_filter, and_assoc]
  refine exists_congr fun iface => and_congr_right fun _ => exists_congr fun addr =>
    and_congr_right fun _ => and_congr_right fun _ => ?_
  unfold ownSubnet
  by_cases hfit : fitsOwnSubnet addr.address addr.prefixLength = true
  · rw [dif_pos hfit]
    rw [fitsOwnSubnet, Bool.and_eq_true, Bool.not_eq_true', decide_eq_true_eq] at hfit
    obtain ⟨address, prefixLength, hvalid⟩ := e
    simp only [Option.some.injEq, OwnSubnet.mk.injEq, hfit, true_and, eq_comm]
  · rw [dif_neg hfit]
    rw [fitsOwnSubnet, Bool.and_eq_true, Bool.not_eq_true', decide_eq_true_eq] at hfit
    constructor
    · intro h
      cases h
    · rintro ⟨hloop, hpre, _⟩
      exact absurd ⟨hloop, hpre⟩ hfit

/-! ## The default route is the best one -/

/-- The routes stand best first: earlier ones are worse, later ones not better. -/
def BestRoute (routes : List Ipv4Route) (r : Ipv4Route) : Prop :=
  isDefaultRoute r = true ∧ ∃ before after, routes = before ++ r :: after ∧
    (∀ p ∈ before, isDefaultRoute p = true → r.sum < p.sum) ∧
    ∀ p ∈ after, isDefaultRoute p = true → r.sum ≤ p.sum

theorem bestRoute_least {routes : List Ipv4Route} {r p : Ipv4Route} (h : BestRoute routes r)
    (hp : p ∈ routes) (hdefault : isDefaultRoute p = true) :
    r.sum ≤ p.sum := by
  obtain ⟨_, before, after, rfl, hbefore, hafter⟩ := h
  rcases List.mem_append.mp hp with hp | hp
  · exact (hbefore p hp hdefault).le
  · rcases List.mem_cons.mp hp with rfl | hp
    · exact le_rfl
    · exact hafter p hp hdefault

theorem bestRoute_snoc {routes : List Ipv4Route} {r x : Ipv4Route} (h : BestRoute routes r)
    (hx : isDefaultRoute x = true → r.sum ≤ x.sum) : BestRoute (routes ++ [x]) r := by
  obtain ⟨hdefault, before, after, rfl, hbefore, hafter⟩ := h
  refine ⟨hdefault, before, after ++ [x], by simp, hbefore, ?_⟩
  intro p hp hp'
  rcases List.mem_append.mp hp with hp | hp
  · exact hafter p hp hp'
  · rw [List.mem_singleton.mp hp] at hp' ⊢
    exact hx hp'

theorem bestRoute_last {routes : List Ipv4Route} {x : Ipv4Route} (hx : isDefaultRoute x = true)
    (h : ∀ p ∈ routes, isDefaultRoute p = true → x.sum < p.sum) : BestRoute (routes ++ [x]) x :=
  ⟨hx, routes, [], rfl, h, fun p hp => by cases hp⟩

/-- What the loop over the routes has found so far. -/
def Found (routes : List Ipv4Route) : Option (U32 × ℕ) → Prop
  | none => ∀ r ∈ routes, isDefaultRoute r = false
  | some (bestIf, bestSum) => ∃ r, BestRoute routes r ∧ r.ifIndex = bestIf ∧ r.sum = bestSum

theorem betterRoute_found {routes : List Ipv4Route} {best : Option (U32 × ℕ)}
    (h : Found routes best) (x : Ipv4Route) :
    Found (routes ++ [x]) (betterRoute best x) := by
  unfold betterRoute
  cases hx : isDefaultRoute x with
  | false =>
    rw [if_pos (show (!false) = true from rfl)]
    cases best with
    | none =>
      intro r hr
      rcases List.mem_append.mp hr with hr | hr
      · exact h r hr
      · rw [List.mem_singleton.mp hr]
        exact hx
    | some found =>
      obtain ⟨r, hbest, hif, hsum⟩ := h
      refine ⟨r, bestRoute_snoc hbest ?_, hif, hsum⟩
      intro hdefault
      rw [hx] at hdefault
      cases hdefault
  | true =>
    rw [if_neg (by simp)]
    cases best with
    | none =>
      refine ⟨x, bestRoute_last hx ?_, rfl, rfl⟩
      intro p hp hdefault
      rw [h p hp] at hdefault
      cases hdefault
    | some found =>
      obtain ⟨r, hbest, hif, hsum⟩ := h
      dsimp only
      split_ifs with hlt
      · refine ⟨x, bestRoute_last hx ?_, rfl, rfl⟩
        intro p hp hdefault
        have := bestRoute_least hbest hp hdefault
        omega
      · exact ⟨r, bestRoute_snoc hbest (fun _ => by omega), hif, hsum⟩

theorem defaultRouteInterface_best (routes : List Ipv4Route) :
    match defaultRouteInterface routes with
    | none => ∀ r ∈ routes, isDefaultRoute r = false
    | some i => ∃ r, BestRoute routes r ∧ r.ifIndex = i := by
  have hfound : Found routes (routes.foldl betterRoute none) := by
    induction routes using List.reverseRecOn with
    | nil =>
      intro r hr
      cases hr
    | append_singleton routes x ih =>
      rw [List.foldl_append]
      exact betterRoute_found ih x
  unfold defaultRouteInterface
  cases hbest : routes.foldl betterRoute none with
  | none =>
    rw [hbest] at hfound
    exact hfound
  | some found =>
    rw [hbest] at hfound
    obtain ⟨r, hr, hif, _⟩ := hfound
    exact ⟨r, hr, hif⟩

/-! ## The list that is registered -/

/-- The candidates in the order of their preference, duplicates and all. -/
def preferred (reflexive : List Endpoint) (locals : List LocalAddress) (defaultIf : Option U32)
    (localPort : U16) : List Candidate :=
  reflexive.map reflexiveCandidate ++
    (locals.filter fun l => defaultIf = some l.ifIndex).map (localCandidate localPort) ++
    (locals.filter fun l => !decide (defaultIf = some l.ifIndex)).map (localCandidate localPort)

theorem registrationList_eq (reflexive : List Endpoint) (locals : List LocalAddress)
    (defaultIf : Option U32) (localPort : U16) :
    registrationList reflexive locals defaultIf localPort =
      (firsts Candidate.endpoint (preferred reflexive locals defaultIf localPort)).take
        maxCandidates := by
  have hpush : ∀ out c, pushUnique out c = keepNew Candidate.endpoint out c := fun _ _ => rfl
  have hdefault : ∀ out : List Candidate, (match defaultIf with
      | none => out
      | some i => locals.foldl (fun out l =>
          if l.ifIndex = i then pushUnique out (localCandidate localPort l) else out) out) =
        ((locals.filter fun l => defaultIf = some l.ifIndex).map (localCandidate localPort)).foldl
          (keepNew Candidate.endpoint) out := by
    intro out
    cases defaultIf with
    | none => simp
    | some i =>
      rw [List.foldl_map, List.foldl_filter]
      dsimp only
      congr 1
      funext out l
      by_cases h : l.ifIndex = i
      · simp [h, hpush]
      · simp [h, Ne.symm h]
  have hrest : ∀ out : List Candidate, locals.foldl (fun out l =>
      if defaultIf = some l.ifIndex then out else pushUnique out (localCandidate localPort l)) out =
        ((locals.filter fun l => !decide (defaultIf = some l.ifIndex)).map
          (localCandidate localPort)).foldl
          (keepNew Candidate.endpoint) out := by
    intro out
    rw [List.foldl_map, List.foldl_filter]
    congr 1
    funext out l
    by_cases h : defaultIf = some l.ifIndex <;> simp [h, hpush]
  have hreflexive : ∀ out : List Candidate,
      reflexive.foldl (fun out r => pushUnique out (reflexiveCandidate r)) out =
        (reflexive.map reflexiveCandidate).foldl (keepNew Candidate.endpoint) out := by
    intro out
    rw [List.foldl_map]
    rfl
  have hlist : registrationList reflexive locals defaultIf localPort =
      (let out := (preferred reflexive locals defaultIf localPort).foldl
        (keepNew Candidate.endpoint) []
       if maxCandidates < out.length then out.take maxCandidates else out) := by
    unfold registrationList preferred
    dsimp only
    rw [hreflexive, hdefault, hrest, List.foldl_append, List.foldl_append]
  rw [hlist, foldl_keepNew]
  dsimp only
  split_ifs with hlen
  · rfl
  · rw [List.take_of_length_le (by omega)]

theorem registrationList_ne_nil {reflexive : List Endpoint} (h : reflexive ≠ [])
    (locals : List LocalAddress) (defaultIf : Option U32) (localPort : U16) :
    registrationList reflexive locals defaultIf localPort ≠ [] := by
  rw [registrationList_eq]
  have hne : firsts Candidate.endpoint (preferred reflexive locals defaultIf localPort) ≠ [] := by
    apply firsts_ne_nil
    cases reflexive with
    | nil => exact absurd rfl h
    | cons e rest => exact List.cons_ne_nil _ _
  intro hnil
  rcases List.take_eq_nil_iff.mp hnil with hzero | hnil
  · cases hzero
  · exact hne hnil

/-- What a collection registers and which subnets it leaves, for any tables the system gives. -/
theorem collect_registration (reflexive : List Endpoint) (localPort : U16)
    (interfaces : InterfaceQuery) (routes : RouteQuery) (ownWintun : Option InterfaceGuid)
    (previous : List OwnSubnet) :
    (collect reflexive localPort interfaces routes ownWintun previous).registration =
      (firsts Candidate.endpoint
        (preferred reflexive
          (if interfaces.ok then eligibleLocals interfaces.interfaces ownWintun else [])
          (if routes.ok then defaultRouteInterface routes.routes else none) localPort)).take 8 ∧
    (match defaultRouteInterface routes.routes with
      | none => ∀ r ∈ routes.routes, isDefaultRoute r = false
      | some i => ∃ r, BestRoute routes.routes r ∧ r.ifIndex = i) ∧
    (∀ l, l ∈ eligibleLocals interfaces.interfaces ownWintun ↔
      ∃ iface ∈ interfaces.interfaces, ∃ addr ∈ iface.addresses,
        (iface.operStatus = .up ∧ addr.dadState = .preferred ∧ ownWintun ≠ some iface.guid ∧
          isExcludedIfType iface.ifType = false ∧ isLoopback addr.address = false ∧
          isApipa addr.address = false) ∧
          l = ⟨addr.address, iface.ifIndex⟩) ∧
    (reflexive ≠ [] →
      (collect reflexive localPort interfaces routes ownWintun previous).registration ≠ []) ∧
    (collect reflexive localPort interfaces routes ownWintun previous).ownSubnets =
      (if interfaces.ok then activeSubnets interfaces.interfaces else previous) ∧
    (∀ e, e ∈ activeSubnets interfaces.interfaces ↔
      ∃ iface ∈ interfaces.interfaces, ∃ addr ∈ iface.addresses,
        isActive iface.operStatus addr.dadState = true ∧ isLoopback addr.address = false ∧
          addr.prefixLength.toNat ≤ maxBroadcastPrefix ∧
          e.address = addr.address ∧ e.prefixLength = addr.prefixLength.toNat) ∧
    (routes.ok = false → ∀ table, (∀ r ∈ table, isDefaultRoute r = false) →
      (collect reflexive localPort interfaces routes ownWintun previous).registration =
        (collect reflexive localPort interfaces ⟨true, 0, table⟩ ownWintun previous).registration ∧
      (collect reflexive localPort interfaces routes ownWintun previous).ownSubnets =
        (collect reflexive localPort interfaces
          ⟨true, 0, table⟩ ownWintun previous).ownSubnets) := by
  have hlocals :
    (if interfaces.ok then (judgeInterfaces interfaces.interfaces ownWintun).candidates else []) =
      if interfaces.ok then eligibleLocals interfaces.interfaces ownWintun else [] := by
    rw [judgeInterfaces_eq]
  refine ⟨?_, defaultRouteInterface_best routes.routes, ?_, ?_, ?_, fun e => mem_activeSubnets, ?_⟩
  · unfold collect
    dsimp only
    rw [hlocals, registrationList_eq]
    rfl
  · intro l
    rw [mem_eligibleLocals]
    refine exists_congr fun iface => and_congr_right fun _ => exists_congr fun addr =>
      and_congr_right fun _ => and_congr_left fun _ => ?_
    simp [Eligible, isActive, and_assoc]
  · intro hne
    exact registrationList_ne_nil hne _ _ _
  · unfold collect
    dsimp only
    rw [judgeInterfaces_eq]
  · intro hfailed table htable
    have hnone : defaultRouteInterface table = none := by
      have hbest := defaultRouteInterface_best table
      cases hcase : defaultRouteInterface table with
      | none => rfl
      | some i =>
        rw [hcase] at hbest
        obtain ⟨r, ⟨hdefault, before, after, heq, _⟩, _⟩ := hbest
        have hin : r ∈ table := by
          rw [heq]
          exact List.mem_append_right before List.mem_cons_self
        rw [htable r hin] at hdefault
        cases hdefault
    unfold collect
    dsimp only
    rw [hfailed, hnone]
    exact ⟨rfl, rfl⟩

end Sangtachi.Candidates
