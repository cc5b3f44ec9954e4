import DurableWorkflows.Admin.Schedules
import DurableWorkflows.Admin.Timeline
import DurableWorkflows.Cluster.Deadlines
import DurableWorkflows.Cluster.Seeding
import DurableWorkflows.Cluster.Topics
import DurableWorkflows.Engine.Coupling
import DurableWorkflows.Engine.Fairness
import DurableWorkflows.Engine.Fencing
import DurableWorkflows.Engine.Resume
import DurableWorkflows.Engine.Schema
import DurableWorkflows.Engine.StepResults
import DurableWorkflows.Engine.Timers
import DurableWorkflows.Flow.Catching
import DurableWorkflows.Flow.Trace
import DurableWorkflows.Observability.TransientErrors
import DurableWorkflows.Runtime.Failures
import DurableWorkflows.Runtime.Supervisor
import DurableWorkflows.Schedule.Backlog
import DurableWorkflows.Schedule.Chunks
import DurableWorkflows.Schedule.RunNow
