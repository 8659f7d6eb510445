import Mathlib.Data.List.MinMax
import OS64.Net
/-!
# Ipv4Route — the routing table

`ipv4_route_lookup` compares metrics only: the route it returns is the first of the smallest metric among those that
match.  Its netmask is the longest one exactly when no matching route with a shorter netmask stands before all the
longer ones in that order (`route_iff`).
-/
namespace OS64

open List Nat
namespace Net

/-- `ipv4_route_t`; `dev` is the pointer to the device. -/
structure Route where
  dest : Ipv4Addr
  netmask : Ipv4Addr
  gateway : Ipv4Addr
  src : Ipv4Addr
  dev : Nat
  metric : Nat
deriving DecidableEq

/-- `ipv4_route_add`; `malloc` says whether there is memory for the route. -/
def ipv4RouteAdd (routes : List Route) (malloc : Bool) (route : Route) : List Route × Int :=
  if malloc then (routes ++ [route], 0) else (routes, -1)

/-- `ipv4_route_del`: the first route with this destination and netmask. -/
def ipv4RouteDel (routes : List Route) (dest netmask : Ipv4Addr) : List Route × Int :=
  let found := fun route : Route => decide (route.dest = dest ∧ route.netmask = netmask)
  if routes.any found then (routes.eraseP found, 0) else (routes, -1)

def Route.Reaches (route : Route) (dest : Ipv4Addr) : Prop := dest &&& route.netmask = route.dest

instance (route : Route) (dest : Ipv4Addr) : Decidable (route.Reaches dest) :=
  inferInstanceAs (Decidable (dest &&& route.netmask = route.dest))

def lookupTurn (dest : Ipv4Addr) (best : Option Route) (route : Route) : Option Route :=
  if route.Reaches dest then
    match best with
    | none => some route
    | some b => if route.metric < b.metric then some route else some b
  else best

def ipv4RouteLookup (routes : List Route) (dest : Ipv4Addr) : Option Route := routes.foldl (lookupTurn dest) none

def ipv4RouteGetDefault (routes : List Route) : Option Route :=
  routes.find? (fun route => decide (route.dest = 0#32 ∧ route.netmask = 0#32))

inductive RouteOp where
  | add (malloc : Bool) (route : Route)
  | del (dest netmask : Ipv4Addr)

def RouteOp.apply (routes : List Route) : RouteOp → List Route
  | add malloc route => (ipv4RouteAdd routes malloc route).1
  | del dest netmask => (ipv4RouteDel routes dest netmask).1

def routeTable (ops : List RouteOp) : List Route := ops.foldl RouteOp.apply []

/-! ## Longest netmasks -/

def maskLen (netmask : Ipv4Addr) : Nat := (List.range 32).countP netmask.getLsbD

def contiguous (k : Nat) : Ipv4Addr := ntohl (BitVec.allOnes 32 <<< (32 - k))

theorem maskLen_eq_zero {netmask : Ipv4Addr} : maskLen netmask = 0 ↔ netmask = 0#32 := by
  unfold maskLen
  rw [countP_eq_zero]
  constructor
  · intro h
    apply BitVec.eq_of_getLsbD_eq
    intro i hi
    rw [BitVec.getLsbD_zero]
    exact Bool.eq_false_of_not_eq_true (h i (mem_range.2 hi))
  · rintro rfl i -
    rw [BitVec.getLsbD_zero]
    exact Bool.false_ne_true

def candidates (routes : List Route) (dest : Ipv4Addr) : List Route :=
  routes.filter (fun route => decide (route.Reaches dest))

/-- **The lookup is the first of the smallest metric** among the routes that match. -/
theorem ipv4RouteLookup_eq (routes : List Route) (dest : Ipv4Addr) :
    ipv4RouteLookup routes dest = (candidates routes dest).argmin Route.metric := by
  unfold ipv4RouteLookup List.argmin candidates
  rw [foldl_filter]
  congr 1
  funext best route
  simp only [decide_eq_true_eq]
  cases best with
  | none => rfl
  | some b => rfl

/-- **A right selection**: nothing only if nothing matches, and otherwise a matching route with the longest netmask
and, among those, the smallest metric; with a directly connected subnet it is no default gateway. -/
def Selected (routes : List Route) (dest : Ipv4Addr) : Option Route → Prop
  | none => ∀ r ∈ routes, ¬ r.Reaches dest
  | some b => b ∈ routes ∧ b.Reaches dest ∧
      (∀ r ∈ routes, r.Reaches dest →
        maskLen r.netmask ≤ maskLen b.netmask ∧ (maskLen r.netmask = maskLen b.netmask → b.metric ≤ r.metric)) ∧
      ((∃ r ∈ routes, r.Reaches dest ∧ r.gateway = 0#32 ∧ r.netmask ≠ 0#32) →
        ¬ (b.netmask = 0#32 ∧ b.gateway ≠ 0#32))

/-- The order in which the routes are preferred: by metric, and by the place in the table. -/
def Ahead (routes : List Route) (p r : Route) : Prop :=
  p.metric < r.metric ∨ p.metric = r.metric ∧ routes.idxOf p < routes.idxOf r

/-- No route with a netmask that is too short is preferred to all those with longer ones. -/
def LongestAhead (routes : List Route) : Prop :=
  ∀ r ∈ routes, ∀ q ∈ routes, maskLen r.netmask < maskLen q.netmask →
    ∃ p ∈ routes, maskLen q.netmask ≤ maskLen p.netmask ∧ Ahead routes p r

theorem longestAhead_iff {routes : List Route} {best : Route} (h : routes.argmin Route.metric = some best) :
    LongestAhead routes ↔ ∀ r ∈ routes, maskLen r.netmask ≤ maskLen best.netmask := by
  obtain ⟨hmem, hmin, hfirst⟩ := argmin_eq_some_iff.1 h
  constructor
  · intro hl r hr
    refine not_lt.1 (fun hlt => ?_)
    obtain ⟨p, hp, -, hmetric | ⟨hmetric, hidx⟩⟩ := hl best hmem r hr hlt
    · exact not_lt.2 (hmin p hp) hmetric
    · exact not_lt.2 (hfirst p hp (le_of_eq hmetric)) hidx
  intro hl r hr q hq hlt
  refine ⟨best, hmem, hl q hq, ?_⟩
  rcases lt_or_eq_of_le (hmin r hr) with hmetric | hmetric
  · exact .inl hmetric
  · refine .inr ⟨hmetric, lt_of_le_of_ne (hfirst r hr (le_of_eq hmetric.symm)) (fun hidx => ?_)⟩
    obtain rfl := (idxOf_inj hmem).1 hidx
    exact not_lt.2 (hl q hq) hlt

theorem selected_iff (routes : List Route) (dest : Ipv4Addr) :
    Selected routes dest (ipv4RouteLookup routes dest) ↔ LongestAhead (candidates routes dest) := by
  have hmem : ∀ r, r ∈ candidates routes dest ↔ r ∈ routes ∧ r.Reaches dest := fun r => by
    simp only [candidates, mem_filter, decide_eq_true_eq]
  rw [ipv4RouteLookup_eq]
  cases hbest : (candidates routes dest).argmin Route.metric with
  | none =>
    have hnil := argmin_eq_none.1 hbest
    refine ⟨fun _ r hr => ?_, fun _ r hr hreach => ?_⟩
    · rw [hnil] at hr
      cases hr
    · have hr' := (hmem r).2 ⟨hr, hreach⟩
      rw [hnil] at hr'
      cases hr'
  | some best =>
    rw [longestAhead_iff hbest]
    obtain ⟨hin, hmin, -⟩ := argmin_eq_some_iff.1 hbest
    obtain ⟨hin, hreach⟩ := (hmem best).1 hin
    constructor
    · rintro ⟨-, -, hlong, -⟩ r hr
      exact (hlong r ((hmem r).1 hr).1 ((hmem r).1 hr).2).1
    intro hlong
    refine ⟨hin, hreach, fun r hr hr' => ⟨hlong r ((hmem r).2 ⟨hr, hr'⟩), fun _ => hmin r ((hmem r).2 ⟨hr, hr'⟩)⟩, ?_⟩
    rintro ⟨r, hr, hr', -, hmask⟩ ⟨hzero, -⟩
    have hle := hlong r ((hmem r).2 ⟨hr, hr'⟩)
    rw [hzero, maskLen_eq_zero.2 rfl, le_zero] at hle
    exact hmask (maskLen_eq_zero.1 hle)

/-- **Route selection**: in every table that calls of `ipv4_route_add` and `ipv4_route_del` have made, the lookup is
right exactly when no matching route with too short a netmask is preferred to all the longer ones. -/
theorem route_iff (ops : List RouteOp) (dest : Ipv4Addr) :
    Selected (routeTable ops) dest (ipv4RouteLookup (routeTable ops) dest) ↔
      LongestAhead (candidates (routeTable ops) dest) :=
  selected_iff _ _

/-- Two interfaces, configured one after the other as the DHCP client does it: each has its subnet, the first one a
default gateway, and every metric is 0. -/
def twoInterfaces : List RouteOp :=
  [.add true ⟨ipv4 192#8 168#8 1#8 0#8, contiguous 24, 0#32, ipv4 192#8 168#8 1#8 7#8, 1, 0⟩,
   .add true ⟨0#32, 0#32, ipv4 192#8 168#8 1#8 1#8, ipv4 192#8 168#8 1#8 7#8, 1, 0⟩,
   .add true ⟨ipv4 10#8 0#8 0#8 0#8, contiguous 24, 0#32, ipv4 10#8 0#8 0#8 7#8, 2, 0⟩]

/-- A neighbour on the second interface is reached through the gateway of the first one. -/
theorem neighbour_via_gateway : ipv4RouteLookup (routeTable twoInterfaces) (ipv4 10#8 0#8 0#8 5#8) =
      some ⟨0#32, 0#32, ipv4 192#8 168#8 1#8 1#8, ipv4 192#8 168#8 1#8 7#8, 1, 0⟩ ∧
    ¬ Selected (routeTable twoInterfaces) (ipv4 10#8 0#8 0#8 5#8)
      (ipv4RouteLookup (routeTable twoInterfaces) (ipv4 10#8 0#8 0#8 5#8)) := by
  have hbest : ipv4RouteLookup (routeTable twoInterfaces) (ipv4 10#8 0#8 0#8 5#8) =
      some ⟨0#32, 0#32, ipv4 192#8 168#8 1#8 1#8, ipv4 192#8 168#8 1#8 7#8, 1, 0⟩ := by decide
  refine ⟨hbest, fun h => ?_⟩
  obtain ⟨-, -, -, hgateway⟩ := h
  exact hgateway (by decide) (by decide)

end Net
end OS64
