import Serval.CtrlChannel
import Serval.SalRefine

/-! # Migration of an interface

`serval_sock_migrate_iface` as the kernel and the user level have it. The walk over the table assigns to its own
argument `new_dev` where a route has been found.
-/
namespace IfaceMigration

open SalSocket (Addr World servalSockMigrate servalSalQueueAndPush)
open SalRefine List CtrlChannel SalControl Function

/-- What `serval_ip_route_output` finds in the kernel, and `none` outside of it. -/
abbrev Route := Option (Addr → Option ℕ)

variable {env : Env} {route : Route} {stack : Stack} {oldDev newDev : ℤ} {w : World}

/-- The interface to migrate to, and whether to do so. -/
def chooseDev (env : Env) (route : Route) (oldDev newDev : ℤ) (w : World) : ℤ × Bool :=
  if 0 < oldDev ∧ 0 < newDev then
    (newDev, if oldDev = newDev then true else w.sk.boundDevIf = oldDev)
  else if oldDev ≤ 0 then (newDev, env.devUp w.sk.boundDevIf = some false)
  else if newDev ≤ 0 ∧ oldDev = w.sk.boundDevIf then
    match route.bind (· w.sk.daddr) with
    | some dev => (dev, true)
    | none => (newDev, false)
  else (newDev, false)

def migrateStep (env : Env) (route : Route) (oldDev : ℤ) (st : Stack × ℤ) (sk : ℕ) : Stack × ℤ :=
  let c := chooseDev env route oldDev st.2 (st.1.socks sk)
  (if c.2 then setMigDevAndMigrate env st.1 c.1.toNat sk else st.1, c.1)

def servalSockMigrateIface (env : Env) (route : Route) (stack : Stack) (oldDev newDev : ℤ) : Stack :=
  (stack.established.foldl (migrateStep env route oldDev) (stack, newDev)).1

/-- Outside the kernel the argument is not assigned to, and this is the function of the control channel. -/
theorem migrateIface_user (env : Env) (stack : Stack) (oldDev newDev : ℕ) :
    servalSockMigrateIface env none stack oldDev newDev =
      CtrlChannel.servalSockMigrateIface env stack oldDev newDev := by
  have hchoose : ∀ w, chooseDev env none oldDev newDev w = ((newDev : ℤ), shouldMigrate env oldDev newDev w) := by
    intro w
    simp only [chooseDev, shouldMigrate, Option.bind_none, Nat.cast_pos, Nat.cast_inj]
    split_ifs <;> first | rfl | omega
  suffices h : ∀ (l : List ℕ) (stack : Stack), l.foldl (migrateStep env none oldDev) (stack, (newDev : ℤ)) =
      (l.foldl (fun stack sk => if shouldMigrate env oldDev newDev (stack.socks sk)
        then setMigDevAndMigrate env stack newDev sk else stack) stack, (newDev : ℤ)) from
    congrArg Prod.fst (h stack.established stack)
  intro l
  induction l with
  | nil => exact fun _ => rfl
  | cons sk l ih =>
    intro stack
    rw [foldl_cons, foldl_cons, ← ih, migrateStep, hchoose, Int.toNat_natCast]

/-! ## Where the sockets go -/

/-- Where a socket is to be migrated to: to the new interface if one is named, otherwise to the one of its own route. -/
def dest (route : Route) (oldDev newDev : ℤ) (w : World) : Option ℕ :=
  if w.sk.boundDevIf = oldDev then if 0 < newDev then some newDev.toNat else route.bind (· w.sk.daddr) else none

/-- An RSYN is sent under the next number. -/
def started (env : Env) (w : World) (dev : ℕ) : World :=
  (servalSalQueueAndPush env.sal
    { w with sk := { withMigDev w.sk dev with salState := requested w.sk.salState }, tape := w.tape.tail }
    (w.tape.headD {}) ⟨rsynFlags w.sk.skState, w.sk.snd.nxt, 0, false⟩).1

/-- The interface that a value of `new_dev` names. -/
def named (dev : ℤ) : Option ℕ := if 0 < dev then some dev.toNat else none

/-- The interface that is named once the walk has passed a socket. The first one stays. -/
def passed (route : Route) (oldDev : ℤ) (found : Option ℕ) (w : World) : Option ℕ :=
  found.or (if w.sk.boundDevIf = oldDev then (route.bind (· w.sk.daddr)).filter (0 < ·) else none)

/-- No socket on the old interface that is given a new one refuses an RSYN. An interface that is named by the call or
was found for an earlier socket is where this one is to go as well, and is not the old one where this one is on
another. -/
def Suits (route : Route) (oldDev newDev : ℤ) (found : Option ℕ) (w : World) : Prop :=
  if w.sk.boundDevIf = oldDev then
    (found.or (route.bind (· w.sk.daddr)) ≠ none → refusesRsyn w.sk.skState = false) ∧
      ∀ dev ∈ found, dest route oldDev newDev w = some dev
  else ∀ dev ∈ found, (dev : ℤ) ≠ oldDev

/-- Every socket of the table suits what has been found before it. -/
def AllSuit (route : Route) (oldDev newDev : ℤ) : Option ℕ → List World → Prop
  | _, [] => True
  | found, w :: ws => Suits route oldDev newDev found w ∧ AllSuit route oldDev newDev (passed route oldDev found w) ws

/-- Where the code migrates a socket to. -/
def choice (route : Route) (oldDev : ℤ) (found : Option ℕ) (w : World) : Option ℕ :=
  if w.sk.boundDevIf = oldDev then found.or (route.bind (· w.sk.daddr)) else found.filter (· = oldDev)

variable {found : Option ℕ} {dev : ℤ}

theorem chooseDev_spec (hold : 0 < oldDev) :
    named (chooseDev env route oldDev dev w).1 = passed route oldDev (named dev) w ∧
      (if (chooseDev env route oldDev dev w).2 then some (chooseDev env route oldDev dev w).1.toNat else none) =
        choice route oldDev (named dev) w := by
  by_cases hpos : 0 < dev
  · have hc : chooseDev env route oldDev dev w =
        (dev, if oldDev = dev then true else decide (w.sk.boundDevIf = oldDev)) := if_pos ⟨hold, hpos⟩
    have hcast : ((dev.toNat : ℕ) : ℤ) = dev := Int.toNat_of_nonneg hpos.le
    rw [hc, named, if_pos hpos, passed, choice, Option.some_or]
    refine ⟨rfl, ?_⟩
    by_cases hbound : w.sk.boundDevIf = oldDev
    · simp [hbound]
    · by_cases hd : oldDev = dev
      · simp [hd, hcast, Option.filter]
      · simp [hbound, hd, hcast, Option.filter, Ne.symm hd]
  · have hc : chooseDev env route oldDev dev w = if dev ≤ 0 ∧ oldDev = w.sk.boundDevIf then
        (route.bind (· w.sk.daddr)).elim (dev, false) fun n => ((n : ℤ), true) else (dev, false) := by
      rw [chooseDev, if_neg (fun hp => hpos hp.2), if_neg (not_le.mpr hold)]
      cases route.bind (· w.sk.daddr) <;> rfl
    have hnone : named dev = none := if_neg hpos
    rw [hc, hnone, passed, choice, Option.none_or, Option.none_or]
    by_cases hbound : w.sk.boundDevIf = oldDev
    · rw [if_pos ⟨not_lt.mp hpos, hbound.symm⟩, if_pos hbound, if_pos hbound]
      cases route.bind (· w.sk.daddr) with
      | none => exact ⟨hnone, rfl⟩
      | some n => exact ⟨by simp [named, Option.filter], by simp⟩
    · rw [if_neg (fun hp => hbound hp.2.symm), if_neg hbound, if_neg hbound]
      exact ⟨hnone, rfl⟩

/-- The socket suits exactly where the code migrates it to its destination, if it is allowed to. -/
theorem suits_iff (hfound : 0 < newDev → found = some newDev.toNat) :
    Suits route oldDev newDev found w ↔
      choice route oldDev found w =
        if refusesRsyn w.sk.skState then none else dest route oldDev newDev w := by
  unfold Suits choice dest
  by_cases hbound : w.sk.boundDevIf = oldDev
  · simp only [if_pos hbound]
    cases hs : refusesRsyn w.sk.skState <;> cases found with
    | none =>
      have hnew : ¬0 < newDev := fun hp => by simpa using hfound hp
      simp [hnew]
    | some d => simp [eq_comm]
  · simp only [if_neg hbound, ite_self]
    cases found <;> simp [Option.filter]

def moved (env : Env) (w : World) (d : Option ℕ) : World := d.elim w fun dev => (servalSockMigrate env.sal w dev).1

/-- A migration takes the next number and remembers its interface, also where no RSYN can be sent. -/
theorem migrate_marks (dev : ℕ) : (servalSockMigrate env.sal w dev).1.sk.snd.nxt = w.sk.snd.nxt + 1 ∧
    (servalSockMigrate env.sal w dev).1.sk.migDevIf = dev := by
  cases hstate : refusesRsyn w.sk.skState
  · rw [migrate_pushes _ _ _ hstate]
    obtain ⟨ms, -, hxmit⟩ := queueAndPush_sent env.sal
      { w with sk := { withMigDev w.sk dev with salState := requested w.sk.salState }, tape := w.tape.tail }
      (w.tape.headD {}) ⟨rsynFlags w.sk.skState, w.sk.snd.nxt, 0, false⟩
    obtain ⟨a, b, hctl⟩ := hxmit.frame
    exact ⟨congrArg Ctl.nxt hctl, congrArg Ctl.migDevIf hctl⟩
  · rw [migrate_refused _ _ _ hstate]
    exact ⟨rfl, rfl⟩

theorem moved_injective (env : Env) (w : World) : Injective (moved env w) := by
  have hmoves : ∀ dev, moved env w (some dev) ≠ w := by
    intro dev h
    have hnxt := @migrate_marks env w dev |>.1
    rw [show (servalSockMigrate env.sal w dev).1 = w from h] at hnxt
    simp at hnxt
  intro d d' h
  cases d with
  | none => cases d' with
    | none => rfl
    | some dev => exact absurd h.symm (hmoves dev)
  | some dev => cases d' with
    | none => exact absurd h (hmoves dev)
    | some dev' =>
      rw [← (@migrate_marks env w dev).2, ← (@migrate_marks env w dev').2]
      exact congrArg (fun w : World => some w.sk.migDevIf) h

theorem migrateStep_spec (hold : 0 < oldDev) (sk : ℕ) :
    named (migrateStep env route oldDev (stack, dev) sk).2 = passed route oldDev (named dev) (stack.socks sk) ∧
      (migrateStep env route oldDev (stack, dev) sk).1.socks = update stack.socks sk
        (moved env (stack.socks sk) (choice route oldDev (named dev) (stack.socks sk))) := by
  obtain ⟨hdev, hchoice⟩ := @chooseDev_spec env route oldDev (stack.socks sk) dev hold
  rw [migrateStep, ← hchoice]
  refine ⟨hdev, ?_⟩
  cases (chooseDev env route oldDev dev (stack.socks sk)).2 with
  | false => simp [moved]
  | true => rfl

/-- What is to become of a socket of the table. -/
def wanted (env : Env) (route : Route) (oldDev newDev : ℤ) (w : World) : World :=
  moved env w (if refusesRsyn w.sk.skState then none else dest route oldDev newDev w)

theorem walk_frame (l : List ℕ) (st : Stack × ℤ) {sk : ℕ} (hold : 0 < oldDev) (hsk : sk ∉ l) :
    (l.foldl (migrateStep env route oldDev) st).1.socks sk = st.1.socks sk := by
  induction l generalizing st with
  | nil => rfl
  | cons s l ih =>
    obtain ⟨hs, hl⟩ := not_or.mp (mem_cons.not.mp hsk)
    rw [foldl_cons, ih _ hl, (migrateStep_spec hold s).2, update_of_ne hs]

/-- The walk treats every socket as is wanted exactly if each suits what was found before. -/
theorem walk_spec {l : List ℕ} (hold : 0 < oldDev) (hnodup : l.Nodup)
    (hnew : 0 < newDev → named dev = some newDev.toNat) :
    (∀ sk ∈ l, (l.foldl (migrateStep env route oldDev) (stack, dev)).1.socks sk =
      wanted env route oldDev newDev (stack.socks sk)) ↔
    AllSuit route oldDev newDev (named dev) (l.map stack.socks) := by
  induction l generalizing stack dev with
  | nil => simp [AllSuit]
  | cons s l ih =>
    obtain ⟨hs, hl⟩ := nodup_cons.mp hnodup
    obtain ⟨hdev, hsocks⟩ := @migrateStep_spec env route stack oldDev dev hold s
    rw [foldl_cons]
    generalize migrateStep env route oldDev (stack, dev) s = st at hdev hsocks
    have hkeep : 0 < newDev → named st.2 = some newDev.toNat := fun hp => by rw [hdev, hnew hp, passed, Option.some_or]
    have hrest : ∀ x ∈ l, st.1.socks x = stack.socks x := by
      intro x hx
      rw [hsocks, update_of_ne (ne_of_mem_of_not_mem hx hs)]
    have hhead : (l.foldl (migrateStep env route oldDev) st).1.socks s =
        moved env (stack.socks s) (choice route oldDev (named dev) (stack.socks s)) := by
      rw [walk_frame l st hold hs, hsocks, update_self]
    rw [forall_mem_cons, hhead, wanted, (moved_injective env _).eq_iff, ← suits_iff hnew, map_cons, AllSuit, ← hdev,
      ← map_congr_left hrest, ← ih hl hkeep]
    exact and_congr_right fun _ => forall₂_congr fun x hx => by rw [hrest x hx]

/-- The socket is to be migrated, and can be. -/
def Migrates (route : Route) (stack : Stack) (oldDev newDev : ℤ) (sk dev : ℕ) : Prop :=
  sk ∈ stack.established ∧ dest route oldDev newDev (stack.socks sk) = some dev ∧
    refusesRsyn (stack.socks sk).sk.skState = false

theorem wanted_iff {sk : ℕ} (hsk : sk ∈ stack.established) (w' : World) :
    w' = wanted env route oldDev newDev (stack.socks sk) ↔
      (∀ dev, Migrates route stack oldDev newDev sk dev → w' = started env (stack.socks sk) dev) ∧
      ((∀ dev, ¬Migrates route stack oldDev newDev sk dev) → w' = stack.socks sk) := by
  unfold wanted Migrates
  cases hstate : refusesRsyn (stack.socks sk).sk.skState
  · have hstart : ∀ dev, (servalSockMigrate env.sal (stack.socks sk) dev).1 = started env (stack.socks sk) dev :=
      fun dev => congrArg Prod.fst (migrate_pushes env.sal _ dev hstate)
    cases dest route oldDev newDev (stack.socks sk) <;> simp [hsk, hstart, moved]
  · simp [moved]

/-- Every socket that is bound to the old interface is migrated once and to its own destination, and the others are left
alone, exactly if every socket of the table suits what has been found before it. -/
theorem iface_migrated (hold : 0 < oldDev) (hnodup : stack.established.Nodup) :
    (∀ sk, (∀ dev, Migrates route stack oldDev newDev sk dev →
        (servalSockMigrateIface env route stack oldDev newDev).socks sk = started env (stack.socks sk) dev) ∧
      ((∀ dev, ¬Migrates route stack oldDev newDev sk dev) →
        (servalSockMigrateIface env route stack oldDev newDev).socks sk = stack.socks sk)) ↔
    AllSuit route oldDev newDev (named newDev) (stack.established.map stack.socks) := by
  rw [← @walk_spec env _ _ _ _ _ _ hold hnodup fun hp => if_pos hp]
  constructor
  · intro h sk hsk
    exact (wanted_iff hsk _).mpr (h sk)
  · intro h sk
    by_cases hsk : sk ∈ stack.established
    · exact (wanted_iff hsk _).mp (h sk hsk)
    · exact ⟨fun dev hm => absurd hm.1 hsk, fun _ => walk_frame _ _ hold hsk⟩

namespace Sample

open CtrlChannel.Sample

/-- A flow to an address, on an interface. -/
def flow (skState : SalBuild.SalState) (dev : ℕ) (daddr : Addr) : World :=
  ⟨{ newSock.sk with skState := skState, boundDevIf := dev, daddr := daddr }, [], []⟩

def table (a b : World) : Stack := { idle with socks := fun sk => if sk = 0 then a else b, established := [0, 1] }

/-- Two of the addresses are reached, over two interfaces. -/
def routes : Addr → Option ℕ := fun daddr => if daddr = 7 then some 2 else if daddr = 8 then some 3 else none

def host : Env := CtrlChannel.Sample.env

/-- The sub-state of each of the two sockets, its next number, and where it is migrated to. -/
def view (stack : Stack) : List (SalSocket.RsynState × UInt32 × ℕ) :=
  [0, 1].map fun sk => ((stack.socks sk).sk.salState, (stack.socks sk).sk.snd.nxt, (stack.socks sk).sk.migDevIf)

end Sample

open Sample in
/-- A flow without a route stays where it is, and the one after it is migrated. -/
theorem iface_migrated_away :
    (servalSockMigrateIface host (some routes) (table (flow .connected 1 9) (flow .connected 1 7)) 1 0).socks 0 =
      flow .connected 1 9 ∧
    (servalSockMigrateIface host (some routes) (table (flow .connected 1 9) (flow .connected 1 7)) 1 0).socks 1 =
      started host (flow .connected 1 7) 2 := by
  have h := (@iface_migrated host (some routes) (table (flow .connected 1 9) (flow .connected 1 7)) 1 0 (by decide)
    (by decide)).mpr (by simp [AllSuit, Suits, passed, table, flow, routes, dest, named, refusesRsyn])
  refine ⟨(h 0).2 fun dev hm => ?_, (h 1).1 2 ⟨by decide, by decide, rfl⟩⟩
  exact absurd hm.2.1 (by simp [dest, table, flow, routes])

open Sample in
/-- Where an interface has a new address, flows on others are migrated too. A socket that cannot send an RSYN loses a
number. In the kernel the second flow follows the first over an interface that does not lead to its peer. -/
theorem iface_migrated_fails :
    view (servalSockMigrateIface host none (table (flow .connected 1 7) (flow .connected 4 8)) 1 1) =
      [(.sent, 1, 1), (.sent, 1, 1)] ∧
    view (servalSockMigrateIface host none (table (flow .connected 1 7) (flow .request 1 8)) 1 2) =
      [(.sent, 1, 2), (.initial, 1, 2)] ∧
    view (servalSockMigrateIface host (some routes) (table (flow .connected 1 7) (flow .connected 1 8)) 1 0) =
      [(.sent, 1, 2), (.sent, 1, 2)] ∧
    view (table (flow .connected 1 7) (flow .connected 1 8)) = [(.initial, 0, 0), (.initial, 0, 0)] := by
  decide +kernel

end IfaceMigration
