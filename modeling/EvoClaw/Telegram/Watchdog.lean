import EvoClaw.Text.Search

namespace EvoClaw.Telegram

open Text

-- self._app, as far as the watchdog looks at it
structure App where
  running : Bool
  updaterRunning : Bool
deriving DecidableEq

-- The awaits of disconnect, in their order.
inductive Stage
  | cancelWatchdog
  | updaterStop
  | appStop
  | shutdown
deriving DecidableEq

-- Why the coroutine has ended.
inductive Reason
  -- the loop was left, or the reconnect loop was, with self._app None
  | appGone
  | cancelled
  | connected
  | unrecoverable
deriving DecidableEq

-- Where _poll_watchdog stands.
inductive Pc
  | head
  | sleeping
  | disconnecting (stage : Stage)
  | reconnecting (backoff : Nat)
  | backingOff (backoff : Nat)
  | ended (reason : Reason)
deriving DecidableEq

def Pc.isEnded : Pc → Bool
  | .ended _ => true
  | _ => false

-- self._watchdog_task
inductive Watched
  | nobody
  | this
  | another
deriving DecidableEq

-- `cancelling` is a cancellation of the coroutine's task that is still to be raised, and
-- `disconnected` says that another task has called disconnect.
structure Watchdog where
  app : Option App
  task : Watched
  pc : Pc
  cancelling : Bool
  disconnected : Bool
deriving DecidableEq

-- What the awaited operation does: whether it suspends, and the text of what it raises.
structure Await where
  suspends : Bool
  raises : Option String
deriving DecidableEq

inductive Completion
  | returned
  | raised (text : String)
  | cancelled
deriving DecidableEq

-- The first await that suspends after a cancellation raises CancelledError.
def Watchdog.settle (watchdog : Watchdog) (await : Await) : Watchdog × Completion :=
  if watchdog.cancelling ∧ await.suspends then ({ watchdog with cancelling := false }, .cancelled)
  else
    match await.raises with
    | none => (watchdog, .returned)
    | some text => (watchdog, .raised text)

-- One attempt of connect. The application may have been built before it raises.
structure Attempt where
  built : Bool
  raises : Option String
deriving DecidableEq

def MAX_RETRIES : Nat := 5

def isUnrecoverable (text : String) : Bool :=
  ["conflict", "unauthorized", "invalid token", "forbidden", "bot was kicked"].any fun word =>
    Text.contains (text.toList.map Char.toLower) word.toList

-- The attempts of connect that are left. The result is the application, and what is raised.
def connect (app : Option App) : List Attempt → Option App × Option String
  | [] => (app, none)
  | attempt :: rest =>
      match attempt.raises with
      | none => (some { running := true, updaterRunning := true }, none)
      | some text =>
          let built := if attempt.built then some ⟨false, false⟩ else app
          if isUnrecoverable text ∨ rest = [] then (built, some text) else connect none rest

def _WD_BACKOFF_CAP : Nat := 900

inductive Event
  -- the application or its updater stops
  | stop (app updater : Bool)
  | resume (await : Await)
  -- self._watchdog_task.cancel() and the await of it, which may take the cancellation up
  | cancelSelf (takesUp : Bool)
  | reconnect (attempts : List Attempt) (suspends : Bool)
  -- another task calls disconnect: up to its await of the watchdog, and the rest
  | disconnect
  | teardown
deriving DecidableEq

-- How the try around await self.disconnect() goes on: the reconnect loop stands in its
-- except Exception.
def Watchdog.afterDisconnect (watchdog : Watchdog) : Completion → Watchdog
  | .returned => { watchdog with pc := .head }
  | .raised _ => { watchdog with pc := .reconnecting 60 }
  | .cancelled => { watchdog with pc := .ended .cancelled }

def App.isHealthy (app : App) : Bool := app.running && app.updaterRunning

def step (watchdog : Watchdog) : Event → Option Watchdog
  | .stop app updater =>
      some { watchdog with app := watchdog.app.map fun old =>
        { running := old.running && !app, updaterRunning := old.updaterRunning && !updater } }
  | .resume await =>
      match watchdog.pc with
      | .head =>
          match watchdog.app with
          | none => some { watchdog with pc := .ended .appGone }
          | some _ => some { watchdog with pc := .sleeping }
      | .sleeping =>
          if watchdog.cancelling then some { watchdog with pc := .ended .cancelled }
          else
            match watchdog.app with
            | none => some { watchdog with pc := .ended .appGone }
            | some app =>
                if app.isHealthy then some { watchdog with pc := .head }
                else some { watchdog with pc := .disconnecting .cancelWatchdog }
      | .disconnecting .cancelWatchdog => none
      -- except Exception: pass
      | .disconnecting .updaterStop =>
          match watchdog.settle await with
          | (next, .cancelled) => some (next.afterDisconnect .cancelled)
          | (next, _) => some { next with pc := .disconnecting .appStop }
      -- except asyncio.CancelledError: pass, except Exception: pass
      | .disconnecting .appStop =>
          some { (watchdog.settle await).1 with pc := .disconnecting .shutdown }
      -- except Exception: pass
      | .disconnecting .shutdown =>
          match watchdog.settle await with
          | (next, .cancelled) => some (next.afterDisconnect .cancelled)
          | (next, _) => some ({ next with app := none }.afterDisconnect .returned)
      | .reconnecting _ => none
      | .backingOff backoff =>
          if watchdog.cancelling then some { watchdog with pc := .ended .cancelled }
          else some { watchdog with pc := .reconnecting (min (backoff * 2) _WD_BACKOFF_CAP) }
      | .ended _ => none
  | .cancelSelf takesUp =>
      match watchdog.pc with
      | .disconnecting .cancelWatchdog =>
          let next :=
            if watchdog.task = .this then { watchdog with cancelling := !takesUp, task := .nobody }
            else watchdog
          match next.app with
          | none => some (next.afterDisconnect .returned)
          | some _ => some { next with pc := .disconnecting .updaterStop }
      | _ => none
  | .reconnect attempts suspends =>
      match watchdog.pc with
      | .reconnecting backoff =>
          match watchdog.app with
          | none => some { watchdog with pc := .ended .appGone }
          | some _ =>
              if watchdog.cancelling ∧ suspends then
                some { watchdog with cancelling := false, pc := .ended .cancelled }
              else
                match connect watchdog.app (attempts.take MAX_RETRIES) with
                | (app, none) =>
                    some { watchdog with
                      app
                      task := if watchdog.task = .nobody then .another else watchdog.task
                      pc := .ended .connected }
                | (app, some text) =>
                    if isUnrecoverable text then
                      some { watchdog with app, pc := .ended .unrecoverable }
                    else some { watchdog with app, pc := .backingOff backoff }
      | _ => none
  | .disconnect =>
      some { watchdog with
        disconnected := true, cancelling := watchdog.cancelling || watchdog.task = .this }
  | .teardown =>
      if watchdog.disconnected ∧ (watchdog.task = .this → watchdog.pc.isEnded) then
        some { watchdog with app := none, task := .nobody }
      else none

-- connect has just started the watchdog.
def Watchdog.started : Watchdog where
  app := some { running := true, updaterRunning := true }
  task := .this
  pc := .head
  cancelling := false
  disconnected := false

end EvoClaw.Telegram
