import EdgeSync.Foundation.Nor
import EdgeSync.Format.Detection
import EdgeSync.Flashq.Integrity
import EdgeSync.Flashq.PowerCut
import EdgeSync.Flashq.Ram
import EdgeSync.Nvs.Ram
import EdgeSync.Nvs.Payload
import EdgeSync.Stack.Retry
import EdgeSync.Stack.Dropping
import EdgeSync.Stack.Replacing
import EdgeSync.Agreement
import EdgeSync.Resize
import EdgeSync.Flashq.Refusal
import EdgeSync.Flashq.Damage
import EdgeSync.Nvs.Faults
import EdgeSync.Ages
import EdgeSync.Stack.Stop
import EdgeSync.Stack.Wakeup
import EdgeSync.Stack.Stats
import EdgeSync.Stack.Events
import EdgeSync.Transport.Address
import EdgeSync.Nvs.Ownership
import EdgeSync.Selected
import EdgeSync.Nvs.Misread
import EdgeSync.Flashq.Scan
import EdgeSync.Flashq.Scratch
import EdgeSync.Stack.Orphans
import EdgeSync.Foundation.Possible
import EdgeSync.Foundation.Checked
import EdgeSync.Atomic
import EdgeSync.Flashq.Detected
import EdgeSync.Flashq.Atomic
import EdgeSync.Nvs.Atomic
import EdgeSync.Stack.Message
import EdgeSync.Stack.Reboots
import EdgeSync.Contents
import EdgeSync.Stack.Journey
import EdgeSync.Stack.Durable
import EdgeSync.Stack.Delivery
import EdgeSync.Stack.Attempts
import EdgeSync.Stack.Duplicates
import EdgeSync.Stack.Deadlines
import EdgeSync.Stack.Overtaking
import EdgeSync.Foundation.Once
import EdgeSync.Api.Publish
import EdgeSync.Api.Once
import EdgeSync.Foundation.Objects
import EdgeSync.Api.Lifecycle
import EdgeSync.Api.Ownership
