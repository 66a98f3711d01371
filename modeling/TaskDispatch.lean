import TaskDispatch.Lib.Run
import TaskDispatch.Lib.ValueNumbering
import TaskDispatch.Lib.DepthFirst
import TaskDispatch.Lib.Frontier
import TaskDispatch.Common.Fault
import TaskDispatch.Common.Domain
import TaskDispatch.Decomposition.FromJson
import TaskDispatch.Decomposition.Unfold
import TaskDispatch.Worker.ThreadPool
import TaskDispatch.Dispatch.Replies
import TaskDispatch.Dispatch.Progress
import TaskDispatch.Dispatch.WireIds
import TaskDispatch.Cluster.Store
import TaskDispatch.Cluster.Kinds
import TaskDispatch.Cluster.Reported
import TaskDispatch.Broker.WorkConserving
import TaskDispatch.Broker.ArrivalOrder
import TaskDispatch.Dispatch.Refinement
import TaskDispatch.Broker.Heard
import TaskDispatch.Dispatch.Sharing
import TaskDispatch.Cluster.Operands
import TaskDispatch.Worker.Extremum
import TaskDispatch.Database.FiniteMap
import TaskDispatch.Broker.Capacity
import TaskDispatch.Lib.Reduction
import TaskDispatch.Common.Defined
import TaskDispatch.Worker.Defined
import TaskDispatch.Cluster.Reached
import TaskDispatch.Cluster.Definedness
import TaskDispatch.Cluster.Exits
import TaskDispatch.Cluster.Unreliable
import TaskDispatch.Broker.Books
import TaskDispatch.Deployment.Deployment
import TaskDispatch.Deployment.Integrity
import TaskDispatch.Deployment.Relayed
import TaskDispatch.Cluster.Stages
import TaskDispatch.Cluster.Rest
import TaskDispatch.Worker.Pool
import TaskDispatch.Lib.Levels
import TaskDispatch.Dispatch.Rounds
import TaskDispatch.Deployment.Rest
import TaskDispatch.Service.Documents
import TaskDispatch.Service.Service
import TaskDispatch.Cluster.Setup
