import DocTemplate.Catalog.Basic
import DocTemplate.Engine.Session
import DocTemplate.Inspect
import DocTemplate.Json.Printer
import DocTemplate.Proofs.Join
import DocTemplate.Proofs.Batch
import DocTemplate.Proofs.Capacity
import DocTemplate.Proofs.Evaluation
import DocTemplate.Proofs.Leaves
import DocTemplate.Proofs.Substitution
import DocTemplate.Proofs.Nesting
import DocTemplate.Proofs.Ancestry
import DocTemplate.Proofs.Settings
import DocTemplate.Proofs.Scheduler
import DocTemplate.Proofs.Play
import DocTemplate.Proofs.InTurn
import DocTemplate.Proofs.Course
import DocTemplate.Proofs.Recital
import DocTemplate.Proofs.Sequence
import DocTemplate.Proofs.Faults
import DocTemplate.Proofs.Accounts
import DocTemplate.Proofs.Playback
import DocTemplate.Proofs.Settlement
import DocTemplate.Proofs.Termination
import DocTemplate.Proofs.Depth
import DocTemplate.Proofs.DocumentOrder
import DocTemplate.Proofs.Writing
import DocTemplate.Proofs.Quoting
import DocTemplate.Proofs.Reordering
import DocTemplate.Proofs.Telling
import DocTemplate.Proofs.Hearing
import DocTemplate.Proofs.WriteOrder
import DocTemplate.Proofs.Segments
import DocTemplate.Proofs.SequencePoint
import DocTemplate.Proofs.Rewording
import DocTemplate.Proofs.Relocation
import DocTemplate.Proofs.Fusion
import DocTemplate.Proofs.Lexemes
import DocTemplate.Proofs.Grammar
import DocTemplate.Proofs.Spelling
import DocTemplate.Proofs.Brackets
import DocTemplate.Proofs.Addressing
import DocTemplate.Proofs.Registrations
import DocTemplate.Proofs.Remaining
import DocTemplate.Proofs.Visits
import DocTemplate.Proofs.Timetable
import DocTemplate.Proofs.Punctual
import DocTemplate.Proofs.Ceilings
