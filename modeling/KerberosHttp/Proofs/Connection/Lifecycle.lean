import KerberosHttp.Connection.Session
import KerberosHttp.Proofs.Connection.Isolation
import KerberosHttp.Proofs.Connection.Protocol

/-!
# The accounts of a connection

A connection is used, its transport may be released, and in the end it may be dropped.
This file counts what the transport gets of all that, wherever it is by then.

```text
                    while it is owned          after it was released
call                one disconnect             nothing, and a setup error
close               one disconnect             nothing
release             nothing, it is handed over nothing
drop                one disconnect             nothing
```

## Strategy

A session that is only used and released is in one of two states: it owns the transport
(`Session.owning`), or it has parted with it (`Session.parted`).  `run_parted` is the
whole story of the second, in one equation.  In the first, a use is one disconnect
(`step_use`), and `exists_run_owning` follows a run up to its first release.  The
record of a traced transport says what it got, and changes nothing (`Faithful.run`).
-/

namespace KerberosHttp

/-- Something done with a connection while it lasts. -/
inductive Handling
  | use (use : Use)
  | release

namespace Handling

/-- The handling as an action of a session. -/
def action : Handling → SessionAction
  | use (.call request endpoint) => .call request endpoint
  | use .close => .close
  | release => .release

def isCall : Handling → Bool
  | use (.call _ _) => true
  | _ => false

def isClose : Handling → Bool
  | use .close => true
  | _ => false

def isRelease : Handling → Bool
  | release => true
  | _ => false

/-- What comes before the first release. -/
def untilRelease (handlings : List Handling) : List Handling :=
  handlings.takeWhile fun handling => !handling.isRelease

/-- The actions of a connection's life, which may end with its being dropped. -/
def actions (handlings : List Handling) (dropped : Bool) : List SessionAction :=
  handlings.map action ++ if dropped then [.drop] else []

/-- What comes of a handling once the transport was released. -/
def afterRelease : Handling → SessionResult
  | use (.call _ _) => .answered (.error (.soap (.setup .released)))
  | use .close => .closed
  | release => .released false

/-- Until the first release there are only calls and closings. -/
theorem length_untilRelease (handlings : List Handling) :
    (untilRelease handlings).length =
      (untilRelease handlings).countP isCall + (untilRelease handlings).countP isClose := by
  induction handlings with
  | nil => rfl
  | cons handling rest ih =>
      match handling with
      | release => rfl
      | use (.call request endpoint) =>
          have hrest : untilRelease (use (.call request endpoint) :: rest) =
              use (.call request endpoint) :: untilRelease rest := rfl
          rw [hrest, List.length_cons, List.countP_cons, List.countP_cons, ih]
          simp only [isCall, isClose, if_true, Bool.false_eq_true, if_false]
          omega
      | use .close =>
          have hrest : untilRelease (use .close :: rest) = use .close :: untilRelease rest := rfl
          rw [hrest, List.length_cons, List.countP_cons, List.countP_cons, ih]
          simp only [isCall, isClose, if_true, Bool.false_eq_true, if_false]
          omega

end Handling

/-- Whether a transport was handed over. -/
def SessionResult.handsOver : SessionResult → Bool
  | released was => was
  | _ => false

theorem Handling.handsOver_afterRelease (handling : Handling) :
    ¬ handling.afterRelease.handsOver = true := by
  match handling with
  | use (.call _ _) => exact Bool.false_ne_true
  | use .close => exact Bool.false_ne_true
  | release => exact Bool.false_ne_true

/-- A session and what came of it so far. -/
structure History (σ : Type) where
  session : Session σ
  results : List SessionResult
  log : Log
  /-- The transports that have ended -/
  ended : List σ

/-- Every transport there is: owned, released, or ended. -/
def History.transports {σ : Type} (history : History σ) : List σ :=
  (history.session.connection.bind (·.transport)).toList ++ history.session.released.toList ++
    history.ended

namespace Session

section Run

variable {σ : Type} [HttpTransport σ] [Url.Reader]

/-- What comes of some actions, in order. -/
def run (session : Session σ) : List SessionAction → History σ
  | [] => ⟨session, [], [], []⟩
  | action :: rest =>
    let done := session.step action
    let later := run done.session rest
    ⟨later.session, done.result :: later.results, done.log ++ later.log,
      done.ended.toList ++ later.ended⟩

/-- A session whose connection owns a transport. -/
def owning (version : Soap.Version) (transport : σ) : Session σ :=
  ofConnection ⟨some transport, version⟩

/-- A session whose connection has released a transport. -/
def parted (version : Soap.Version) (transport : σ) : Session σ :=
  ⟨some ⟨none, version⟩, some transport⟩

theorem run_append (session : Session σ) (first second : List SessionAction) :
    session.run (first ++ second) =
      let done := session.run first
      let later := done.session.run second
      ⟨later.session, done.results ++ later.results, done.log ++ later.log,
        done.ended ++ later.ended⟩ := by
  induction first generalizing session with
  | nil => rfl
  | cons action rest ih => simp [run, ih]

/-! ## After the release -/

/-- With its transport released, a connection does nothing whatever is done with it. -/
theorem run_parted (version : Soap.Version) (transport : σ) (handlings : List Handling)
    (dropped : Bool) :
    (parted version transport).run (Handling.actions handlings dropped) =
      ⟨⟨if dropped then none else some ⟨none, version⟩, some transport⟩,
        handlings.map Handling.afterRelease ++ if dropped then [.dropped] else [], [], []⟩ := by
  induction handlings with
  | nil => cases dropped <;> rfl
  | cons handling rest ih =>
      have hstep : (parted version transport).step handling.action =
          ⟨handling.afterRelease, parted version transport, [], none⟩ := by
        match handling with
        | .use (.call _ _) => rfl
        | .use .close => rfl
        | .release => rfl
      have hrest : Handling.actions (handling :: rest) dropped =
          handling.action :: Handling.actions rest dropped := rfl
      rw [hrest, run, hstep, ih]
      rfl

end Run

/-! ## Until the release -/

section Traced

variable {σ : Type} [HttpTransport σ] [Url.Reader] {version : Soap.Version}

/-- A use of a connection that owns its transport disconnects it once. -/
theorem step_use (version : Soap.Version) (transport : Traced σ) (use : Use) :
    ∃ after result log,
      (owning version transport).step (Handling.use use).action =
        ⟨result, owning version after, log, none⟩ ∧
      result.handsOver = false ∧
      after.operations.count .disconnect = transport.operations.count .disconnect + 1 := by
  cases use with
  | close =>
      refine ⟨HttpTransport.disconnect transport, .closed, [], rfl, rfl, ?_⟩
      simp [Traced.disconnect_eq]
  | call request endpoint =>
      obtain ⟨operations, hshape, hoperations⟩ :=
        (Connection.exchanges_exchange version request endpoint transport).shape
      refine ⟨_, _, _, rfl, rfl, ?_⟩
      rw [Traced.disconnect_eq, hoperations, List.count_append, hshape.disconnect_once]

/-- A run from a connection that owns its transport, up to its end or its release. -/
theorem exists_run_owning (version : Soap.Version) (transport : Traced σ)
    (handlings : List Handling) :
    ∃ left results log,
      (owning version transport).run (handlings.map Handling.action) =
        ⟨if handlings.any Handling.isRelease then parted version left else owning version left,
          results, log, []⟩ ∧
      results.countP SessionResult.handsOver =
        (if handlings.any Handling.isRelease then 1 else 0) ∧
      left.operations.count .disconnect =
        transport.operations.count .disconnect + (Handling.untilRelease handlings).length := by
  induction handlings generalizing transport with
  | nil => exact ⟨transport, [], [], rfl, rfl, rfl⟩
  | cons handling rest ih =>
      cases handling with
      | release =>
          have hstep : (owning version transport).step Handling.release.action =
              ⟨.released true, parted version transport, [], none⟩ := rfl
          have hrest := run_parted version transport rest false
          have hvain : (rest.map Handling.afterRelease).countP SessionResult.handsOver = 0 := by
            rw [List.countP_map, List.countP_eq_zero]
            intro handling _
            exact Handling.handsOver_afterRelease handling
          simp only [Handling.actions, Bool.false_eq_true, if_false, List.append_nil] at hrest
          refine ⟨transport, .released true :: rest.map Handling.afterRelease, [], ?_, ?_, rfl⟩
          · rw [List.map_cons, run, hstep, hrest]
            rfl
          · rw [List.countP_cons, hvain]
            rfl
      | use use =>
          obtain ⟨after, result, log, hstep, hresult, hafter⟩ :=
            step_use version transport use
          obtain ⟨left, results, later, hrun, hresults, hleft⟩ := ih after
          have hnot : (Handling.use use).isRelease = false := rfl
          have huntil : Handling.untilRelease (.use use :: rest) =
              .use use :: Handling.untilRelease rest := by
            rw [Handling.untilRelease, List.takeWhile_cons, hnot]
            rfl
          refine ⟨left, result :: results, log ++ later, ?_, ?_, ?_⟩
          · rw [List.map_cons, run, hstep, hrun, List.any_cons, hnot]
            rfl
          · rw [List.countP_cons, hresult, hresults, List.any_cons, hnot]
            rfl
          · rw [hleft, hafter, huntil, List.length_cons]
            omega

end Traced

end Session

/-! ## The record changes nothing -/

section Through

variable {σ τ : Type}

/-- A session with its transports seen through a view. -/
def Session.through (view : σ → τ) (session : Session σ) : Session τ :=
  ⟨session.connection.map (Connection.through view), session.released.map view⟩

/-- A history with its transports seen through a view. -/
def History.through (view : σ → τ) (history : History σ) : History τ :=
  ⟨history.session.through view, history.results, history.log, history.ended.map view⟩

variable [HttpTransport σ] [HttpTransport τ] {view : σ → τ}

theorem Faithful.close (hview : Faithful view) (connection : Connection σ) :
    (connection.through view).close = connection.close.through view := by
  obtain ⟨transport, version⟩ := connection
  cases transport with
  | none => rfl
  | some transport => simp [Connection.through, Connection.close, hview.disconnect]

variable [Url.Reader]

/-- Through a faithful view a session does the same. -/
theorem Faithful.step (hview : Faithful view) (session : Session σ) (action : SessionAction) :
    (session.through view).step action =
      let done := session.step action
      ⟨done.result, done.session.through view, done.log, done.ended.map view⟩ := by
  obtain ⟨connection, released⟩ := session
  -- Only a session that has a connection still looks at the action.
  cases action with
  | drop =>
      cases connection with
      | none => rfl
      | some connection =>
          have hclose : (connection.through view).close.transport =
              connection.close.transport.map view :=
            congrArg Connection.transport (hview.close connection)
          simp [Session.step, Session.drop, Session.through, hclose]
  | dropReleased => cases released <;> rfl
  | call request endpoint =>
      cases connection with
      | none => rfl
      | some connection => simp [Session.step, Session.through, hview.call]
  | close =>
      cases connection with
      | none => rfl
      | some connection => simp [Session.step, Session.through, hview.close]
  | release =>
      cases connection with
      | none => rfl
      | some connection =>
          obtain ⟨transport, version⟩ := connection
          cases transport with
          | none => rfl
          | some transport => rfl

/-- Through a faithful view a run does the same. -/
theorem Faithful.run (hview : Faithful view) (session : Session σ) (actions : List SessionAction) :
    (session.through view).run actions = (session.run actions).through view := by
  induction actions generalizing session with
  | nil => rfl
  | cons action rest ih =>
      have hended : (Option.map view (session.step action).ended).toList =
          (session.step action).ended.toList.map view := by
        cases (session.step action).ended <;> rfl
      simp only [Session.run, hview.step, ih, hended]
      simp [History.through]

end Through

/-! ## The whole life -/

section Accounts

variable {σ : Type} [HttpTransport σ] [Url.Reader]

/-- The accounts of a connection's life, `left` being its transport in the end. -/
structure Accounts (transport : σ) (version : Soap.Version) (handlings : List Handling)
    (dropped : Bool) (left : Traced σ) (history : History (Traced σ)) : Prop where
  /-- The record of the transport changes nothing. -/
  faithful : history.through Traced.inner =
    (Session.owning version transport).run (Handling.actions handlings dropped)
  /-- The transport is never lost, and there is no second one. -/
  one : history.transports = [left]
  disconnects : left.operations.count .disconnect =
    (Handling.untilRelease handlings).countP Handling.isCall +
      (Handling.untilRelease handlings).countP Handling.isClose +
      if dropped && !handlings.any Handling.isRelease then 1 else 0
  /-- The first release hands the transport over, and no other does. -/
  handed : history.results.countP SessionResult.handsOver =
    if handlings.any Handling.isRelease then 1 else 0
  /-- At a release the transport is what it is in the end. -/
  final : ∀ before later, handlings = before ++ .release :: later →
    ((Session.owning version (Traced.ofInner transport)).run
      ((before ++ [.release]).map Handling.action)).session = Session.parted version left
  /-- Whatever follows a release changes nothing and reports nothing. -/
  silent : ∀ later dropped, (Session.parted version left).run (Handling.actions later dropped) =
    ⟨⟨if dropped then none else some ⟨none, version⟩, some left⟩,
      later.map Handling.afterRelease ++ if dropped then [.dropped] else [], [], []⟩

/-- What is done after a release leaves the transport as it is. -/
theorem Session.run_of_release (version : Soap.Version) (transport : Traced σ)
    (before later : List Handling) :
    ((owning version transport).run
        ((before ++ Handling.release :: later).map Handling.action)).session =
      ((owning version transport).run
        ((before ++ [Handling.release]).map Handling.action)).session := by
  obtain ⟨left, results, log, hrun, -⟩ :=
    exists_run_owning version transport (before ++ [Handling.release])
  have hreleased : (before ++ [Handling.release]).any Handling.isRelease = true := by
    simp [Handling.isRelease]
  have hrest := run_parted version left later false
  simp only [Handling.actions, Bool.false_eq_true, if_false, List.append_nil] at hrest
  have hsplit : (before ++ Handling.release :: later).map Handling.action =
      (before ++ [Handling.release]).map Handling.action ++ later.map Handling.action := by
    simp
  rw [hreleased, if_pos rfl] at hrun
  rw [hsplit, run_append, hrun]
  simp only [hrest]
  rfl

/-- **The accounts of a connection.**  Whatever is done with a connection over any
transport, the transport is disconnected once for each call and each closing before the
first release, and once more if the connection is dropped with the transport.  It is
handed over by the first release alone.  From then on it is left as it is: closing and
dropping do nothing, and a call fails because the transport was released, and reports
nothing. -/
theorem exists_accounts (transport : σ) (version : Soap.Version) (handlings : List Handling)
    (dropped : Bool) :
    ∃ left, Accounts transport version handlings dropped left
      ((Session.owning version (Traced.ofInner transport)).run
        (Handling.actions handlings dropped)) := by
  obtain ⟨left, results, log, hrun, hresults, hcount⟩ :=
    Session.exists_run_owning version (Traced.ofInner transport) handlings
  have hfaithful := (Traced.faithful_inner (σ := σ)).run
    (Session.owning version (Traced.ofInner transport)) (Handling.actions handlings dropped)
  have hnone : (Traced.ofInner transport).operations.count .disconnect = 0 := rfl
  rw [hnone, Nat.zero_add, Handling.length_untilRelease] at hcount
  by_cases hreleased : handlings.any Handling.isRelease = true
  · -- The connection has parted with the transport, so its end does nothing to it.
    rw [if_pos hreleased] at hrun hresults
    have hending : (Session.parted version left).run (if dropped then [.drop] else []) = _ :=
      Session.run_parted version left [] dropped
    have hwhole := Session.run_append (Session.owning version (Traced.ofInner transport))
      (handlings.map Handling.action) (if dropped then [.drop] else [])
    simp only [hrun, hending] at hwhole
    refine ⟨left, ⟨hfaithful.symm, ?_, ?_, ?_, ?_, Session.run_parted version left⟩⟩
    · rw [Handling.actions, hwhole]
      cases dropped <;> rfl
    · rw [hcount, hreleased, Bool.not_true, Bool.and_false]
      rfl
    · rw [Handling.actions, hwhole, if_pos hreleased, List.countP_append, hresults]
      cases dropped <;> rfl
    · rintro before later rfl
      rw [← Session.run_of_release, hrun]
  · -- The connection still owns the transport, and disconnects it if it is dropped.
    rw [if_neg hreleased] at hrun hresults
    have hkept : ∀ before later, handlings ≠ before ++ Handling.release :: later := by
      rintro before later rfl
      exact hreleased (by simp [Handling.isRelease])
    have hwhole := Session.run_append (Session.owning version (Traced.ofInner transport))
      (handlings.map Handling.action) (if dropped then [.drop] else [])
    simp only [hrun] at hwhole
    cases dropped with
    | false =>
        refine ⟨left, ⟨hfaithful.symm, ?_, ?_, ?_, ?_, Session.run_parted version left⟩⟩
        · rw [Handling.actions, hwhole]
          rfl
        · exact hcount
        · rw [Handling.actions, hwhole, if_neg hreleased, List.countP_append, hresults]
          rfl
        · exact fun before later hsplit => absurd hsplit (hkept before later)
    | true =>
        refine ⟨HttpTransport.disconnect left,
          ⟨hfaithful.symm, ?_, ?_, ?_, ?_, Session.run_parted version _⟩⟩
        · rw [Handling.actions, hwhole]
          rfl
        · rw [Traced.disconnect_eq, List.count_append, hcount,
            Bool.eq_false_iff.mpr hreleased]
          rfl
        · rw [Handling.actions, hwhole, if_neg hreleased, List.countP_append, hresults]
          rfl
        · exact fun before later hsplit => absurd hsplit (hkept before later)

end Accounts

/-- A connection is called and closed, then released, called and released again, and
dropped. -/
theorem exists_accounts_twice :
    let call := Handling.use (.call .bare "https://host/")
    let before : List Handling := [call, .use .close]
    let later : List Handling := [call, .release]
    let beginning := Session.owning .v1_2 (Traced.ofInner (RecordingTransport.ofReply (.success [])))
    ∃ left,
      (beginning.run (Handling.actions (before ++ .release :: later) true)).transports = [left] ∧
      left.operations.count .disconnect = 2 ∧
      (beginning.run ((before ++ [Handling.release]).map Handling.action)).session =
        Session.parted .v1_2 left ∧
      ((Session.parted .v1_2 left).run (Handling.actions later true)).results =
        [.answered (.error (.soap (.setup .released))), .released false, .dropped] := by
  intro call before later beginning
  obtain ⟨left, haccounts⟩ := exists_accounts (RecordingTransport.ofReply (.success [])) .v1_2
    (before ++ .release :: later) true
  refine ⟨left, haccounts.one, haccounts.disconnects, haccounts.final before later rfl, ?_⟩
  rw [haccounts.silent later true]
  rfl

end KerberosHttp
